import WorkLedger.Proofs.DecimalText
import WorkLedger.Decimal.Equality

/-!
# Equality of a decimal and its digits shifted

`n` at scale `-k` and `n · 10^k` at scale zero are one number. Equality finds them equal by
walking the 32-bit words of both digit strings with a carry (`Decimal.scaledWordsMatch`). The
walk is exact as long as no sum in it passes 64 bits, and none does while `n · 10^k` itself
stays below `2^64`: every sum is then a part of that product (`scaledWordsMatch_words`). So
a decimal whose text reads back as other digits compares equal to what it reads back as
whenever those digits fit 64 bits (`Decimal.reread_beq_self`).

Past 64 bits a sum can wrap and lose its top carry; then numbers that are equal compare
unequal, and a decimal may differ from what its own text reads back as: `7922816251677867879`
with ten zeros appended is one.
-/

namespace WorkLedger.Decimal

/-- The number of a digit string is the same at every scale, so each decimal equals itself. -/
@[simp] theorem beq_self (d : Decimal) : (d == d) = true := by
  show Decimal.sameValue d d = true
  by_cases h : d.unscaled = 0 <;> simp [Decimal.sameValue, h]

/-- Equality does not depend on which decimal comes first: the digits with fewer places are the
ones scaled up either way. -/
theorem beq_comm (a b : Decimal) : (a == b) = (b == a) := by
  show Decimal.sameValue a b = Decimal.sameValue b a
  unfold Decimal.sameValue
  rw [Bool.and_comm (decide (b.unscaled = 0)),
    show (b.unscaled.sign != a.unscaled.sign) = (a.unscaled.sign != b.unscaled.sign) from bne_comm]
  by_cases hs : a.scale = b.scale
  · have hu : (a.unscaled == b.unscaled) = (b.unscaled == a.unscaled) :=
      Bool.eq_iff_iff.2 (by simp only [beq_iff_eq]; exact eq_comm)
    rw [if_pos hs, if_pos hs.symm, hu]
  · rw [if_neg hs, if_neg (Ne.symm hs)]
    rcases lt_or_gt_of_ne hs with h | h
    · rw [if_neg (not_lt.2 h.le), if_pos h]
    · rw [if_pos h, if_neg (not_lt.2 h.le)]

/-! ## Words -/

theorem wordBase_eq : wordBase = 2 ^ 32 := rfl

theorem wideBase_eq : wideBase = 2 ^ 64 := rfl

theorem words_zero : words 0 = [] := by
  rw [words]

theorem words_of_pos {n : Nat} (h : 0 < n) : words n = n % wordBase :: words (n / wordBase) := by
  obtain ⟨m, rfl⟩ := Nat.exists_eq_add_of_lt h
  rw [words]

/-- Below `2^32`, a positive number is one word. -/
theorem words_of_lt {n : Nat} (h0 : 0 < n) (h : n < wordBase) : words n = [n] := by
  rw [words_of_pos h0, Nat.mod_eq_of_lt h, Nat.div_eq_of_lt h, words_zero]

/-! ## The walk -/

/-- **The walk is exact without wrapping.** Walking the words of `X = Y · p + c` against those
of `Y` with carry `c` never finds them unequal, as long as `X` is below `2^64` and the carry
below `2^32`: each sum it forms is a part of `X`, so none wraps. The induction follows the
words of `Y`, and `X` loses one word at each step as `Y` does. -/
theorem scaledWordsMatch_words {p : Nat} (hp : 0 < p) (Y : Nat) :
    ∀ c X, X = Y * p + c → X < 2 ^ 64 → c < 2 ^ 32 →
      scaledWordsMatch p (words X) (words Y) c ≠ some false := by
  induction Y using Nat.strongRecOn with
  | ind Y ih =>
    intro c X hX hlt hc
    rcases Nat.eq_zero_or_pos Y with rfl | hY
    · -- no word of `Y` is left: the carry is all that remains of `X`
      rw [Nat.zero_mul, Nat.zero_add] at hX
      subst hX
      rcases Nat.eq_zero_or_pos X with rfl | hX0
      · simp [words_zero, scaledWordsMatch]
      · rw [words_of_lt hX0 (by rw [wordBase_eq]; omega), words_zero]
        simp [scaledWordsMatch, Nat.mod_eq_of_lt (show X < wordBase by rw [wordBase_eq]; omega)]
    · -- the lowest word of `Y`, times `p`, plus the carry: the lowest part of `X`
      have hsplit := Nat.div_add_mod Y wordBase
      have hXY : X = wordBase * (Y / wordBase * p) + (Y % wordBase * p + c) := by
        rw [hX, ← Nat.mul_assoc, ← Nat.add_assoc, ← Nat.add_mul, hsplit]
      have hX0 : 0 < X := by
        have := Nat.mul_pos hY hp
        omega
      rw [words_of_pos hX0, words_of_pos hY, scaledWordsMatch]
      simp only
      split
      · simp
      · have hwide : (Y % wordBase * p + c) % wideBase = Y % wordBase * p + c := by
          simp only [wideBase_eq, wordBase_eq] at *
          exact Nat.mod_eq_of_lt (by omega)
        rw [hwide]
        have hlow : X % wordBase = (Y % wordBase * p + c) % wordBase := by
          rw [hXY, Nat.mul_add_mod]
        rw [if_pos (by rw [hlow]; exact beq_self_eq_true _)]
        have hdiv : X / wordBase = Y / wordBase * p + (Y % wordBase * p + c) / wordBase := by
          rw [hXY, Nat.mul_add_div (by rw [wordBase_eq]; omega)]
        rw [hdiv]
        refine ih (Y / wordBase) (Nat.div_lt_self hY (by rw [wordBase_eq]; omega)) _ _ rfl ?_ ?_
        · rw [← hdiv]
          exact Nat.lt_of_le_of_lt (Nat.div_le_self _ _) hlt
        · simp only [wideBase_eq, wordBase_eq] at *
          omega

/-! ## Bit lengths -/

/-- The bits of a product are at least the bits of its factors, less one. -/
theorem log2_add_log2_le {a b : Nat} (ha : a ≠ 0) (hb : b ≠ 0) :
    a.log2 + b.log2 ≤ (a * b).log2 := by
  rw [Nat.le_log2 (Nat.mul_ne_zero ha hb), Nat.pow_add]
  exact Nat.mul_le_mul (Nat.log2_self_le ha) (Nat.log2_self_le hb)

/-- `n · 10^k` has bits enough to be `n` times `10^k`. -/
theorem tooShortForScaled_mul_pow {n : Nat} (hn : 0 < n) (k : Nat) :
    tooShortForScaled (n * 10 ^ k) n k = false := by
  have hp : 10 ^ k ≠ 0 := Nat.ne_of_gt (Nat.pow_pos (by decide))
  have hprod := log2_add_log2_le (Nat.ne_of_gt hn) hp
  have hmul : n * 10 ^ k ≠ 0 := Nat.mul_ne_zero (Nat.ne_of_gt hn) hp
  simp only [tooShortForScaled, Nat.pow_eq, bitLength, if_neg (Nat.ne_of_gt hn), if_neg hmul,
    Bool.or_eq_false_iff, decide_eq_false_iff_not]
  omega

/-- **Shifted digits compare equal within 64 bits.** `n · 10^k` at `k` fewer places equals `n`
when it is below `2^64`. -/
theorem scaledEqual_mul_pow {n k : Nat} (hn : 0 < n) (hk : k < 20) (h : n * 10 ^ k < 2 ^ 64) :
    scaledEqual (n * 10 ^ k) n k = true := by
  have hwalk := scaledWordsMatch_words (Nat.pow_pos (by decide)) n 0 (n * 10 ^ k)
    (Nat.add_zero _).symm h (by decide)
  rw [scaledEqual, if_pos hk, Nat.pow_eq, tooShortForScaled_mul_pow hn]
  cases hm : scaledWordsMatch (10 ^ k) (words (n * 10 ^ k)) (words n) 0 with
  | none => simp
  | some b =>
    rw [hm] at hwalk
    cases b
    · exact absurd rfl hwalk
    · rfl

/-! ## A decimal read back -/

/-- **A decimal equals its text read back** when the digits read back, with the zeros its
text appends, fit 64 bits. -/
theorem reread_beq_self (d : Decimal)
    (h : d.unscaled.natAbs * 10 ^ d.scale.natAbs < 2 ^ 64 ∨ ¬(-15 ≤ d.scale ∧ d.scale < 0)) :
    (d.reread == d) = true := by
  by_cases hu : d.unscaled = 0
  · rw [reread, if_pos hu]
    show sameValue _ d = true
    simp [sameValue, hu]
  by_cases hk : -15 ≤ d.scale ∧ d.scale < 0
  · -- the zeros were appended to the digits: the walk compares them within 64 bits
    have hfit := h.resolve_right (not_not_intro hk)
    have hpos : (0 : Int) < 10 ^ d.scale.natAbs := Int.pow_pos (by decide)
    rw [reread, if_neg hu, if_pos hk]
    show sameValue _ d = true
    have hsign : (d.unscaled * 10 ^ d.scale.natAbs).sign = d.unscaled.sign := by
      rw [Int.sign_mul, Int.sign_eq_one_of_pos hpos, Int.mul_one]
    have hscale : ((0 : Int) - d.scale).toNat = d.scale.natAbs := by omega
    have habs : (d.unscaled * 10 ^ d.scale.natAbs).natAbs = d.unscaled.natAbs * 10 ^ d.scale.natAbs := by
      rw [Int.natAbs_mul, Int.natAbs_pow]
      rfl
    simp only [sameValue, hu, hsign, hscale, habs, bne_self_eq_false, decide_false,
      Bool.and_false, Bool.false_eq_true, if_false, show ¬((0 : Int) = d.scale) by omega,
      show d.scale < 0 from hk.2, if_true]
    exact scaledEqual_mul_pow (Int.natAbs_pos.2 hu) (by omega) hfit
  · rw [reread, if_neg hu, if_neg hk, beq_self]

end WorkLedger.Decimal
