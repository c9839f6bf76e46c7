import Mathlib
import WorkLedger.Decimal.Text
import WorkLedger.Decimal.Equality

/-!
# Decimal text read back

Reading the text of a decimal gives back its digits, and its scale too unless the text is
positional with zeros after the digits: a scale from `-15` to `-1` is written as that many zeros
and read back as digits at scale zero, and zero is written `0` whatever its scale
(`Decimal.reread`). Both read back to the same text, so text written, read and written again
is the text first written (`Decimal.toText_reread`).

The digits of a text are read by `Nat.ofDigitChars`; an exponent is read within 128 bits and the
scale within 64, which a scale of 64 bits leaves room for.
-/

namespace WorkLedger.Decimal

/-- The decimal that the text of `d` reads back as: zero at scale zero; `d`'s digits followed
by its zeros, at scale zero, when its scale is from `-15` to `-1`; `d` itself otherwise. -/
def reread (d : Decimal) : Decimal :=
  if d.unscaled = 0 then ⟨0, 0⟩
  else if -15 ≤ d.scale ∧ d.scale < 0 then ⟨d.unscaled * 10 ^ d.scale.natAbs, 0⟩
  else d

/-! ## Reading digits -/

/-- The characters a number is written with are decimal digits. -/
theorem isDigit_of_mem_toDigits {n : Nat} {c : Char} (h : c ∈ Nat.toDigits 10 n) :
    c.isDigit = true :=
  Nat.isDigit_of_mem_toDigits (by decide) (by decide) h

theorem digitValue?_of_isDigit {c : Char} (h : c.isDigit = true) :
    digitValue? c = some (c.toNat - '0'.toNat) := by
  simp only [Char.isDigit, Bool.and_eq_true, decide_eq_true_eq] at h
  simp [digitValue?, show '0' ≤ c ∧ c ≤ '9' from ⟨h.1, h.2⟩]

/-- Digits accumulate to the number they write. -/
theorem foldlM_digits (cs : List Char) (hcs : ∀ c ∈ cs, c.isDigit = true) (acc : Nat) :
    (cs.foldlM (fun acc c =>
        if c = '_' then Except.ok acc
        else match digitValue? c with
          | some v => Except.ok (acc * 10 + v)
          | none => Except.error ParseError.invalidDigit) acc : Except ParseError Nat) =
      .ok (Nat.ofDigitChars 10 cs acc) := by
  induction cs generalizing acc with
  | nil => rfl
  | cons c cs ih =>
    have hc := hcs c List.mem_cons_self
    have hne : c ≠ '_' := by
      rintro rfl
      simp [Char.isDigit] at hc
    rw [List.foldlM_cons, if_neg hne, digitValue?_of_isDigit hc, Nat.ofDigitChars_cons,
      Nat.mul_comm]
    exact ih (fun x hx => hcs x (List.mem_cons_of_mem _ hx)) _

/-- Non-empty digits, with nothing else, are read as the number they write. -/
theorem parseMagnitude_digits {cs : List Char} (hcs : ∀ c ∈ cs, c.isDigit = true)
    (hne : cs ≠ []) : parseMagnitude cs = .ok (Nat.ofDigitChars 10 cs 0) := by
  rw [parseMagnitude.eq_3 cs hne ?_]
  · exact foldlM_digits cs hcs 0
  · rintro tail rfl
    simp [Char.isDigit] at hcs

theorem parseInteger_digits {cs : List Char} (hcs : ∀ c ∈ cs, c.isDigit = true)
    (hne : cs ≠ []) : parseInteger cs = .ok (Nat.ofDigitChars 10 cs 0 : Int) := by
  rw [parseInteger.eq_5 cs (by rintro rest rfl; simp [Char.isDigit] at hcs)
    (by rintro rest rfl; simp [Char.isDigit] at hcs), parseMagnitude_digits hcs hne]
  rfl

theorem parseInteger_minus_digits {cs : List Char} (hcs : ∀ c ∈ cs, c.isDigit = true)
    (hne : cs ≠ []) : parseInteger ('-' :: cs) = .ok (-(Nat.ofDigitChars 10 cs 0 : Int)) := by
  rw [parseInteger.eq_2 cs (by rintro rest rfl; simp [Char.isDigit] at hcs),
    parseMagnitude_digits hcs hne]
  rfl

/-- A reading of digits never falls below the value it starts from. -/
theorem le_ofDigitChars (cs : List Char) (acc : Nat) : acc ≤ Nat.ofDigitChars 10 cs acc := by
  rw [Nat.ofDigitChars_eq_ofDigitChars_zero]
  have := Nat.one_le_pow cs.length 10 (by decide)
  calc acc ≤ 10 ^ cs.length * acc := Nat.le_mul_of_pos_left acc this
    _ ≤ _ := Nat.le_add_right _ _

/-- The digits of an exponent below `2^127` are read as it. -/
theorem accumulateExponent_plus (cs : List Char) (hcs : ∀ c ∈ cs, c.isDigit = true) (acc : Nat)
    (hb : Nat.ofDigitChars 10 cs acc < 2 ^ 127) :
    accumulateExponent false cs acc = .ok (Nat.ofDigitChars 10 cs acc : Int) := by
  induction cs generalizing acc with
  | nil => rfl
  | cons c cs ih =>
    have hc := hcs c List.mem_cons_self
    rw [Nat.ofDigitChars_cons] at hb ⊢
    have hle := le_ofDigitChars cs (10 * acc + (c.toNat - '0'.toNat))
    rw [accumulateExponent.eq_2, digitValue?_of_isDigit hc]
    simp only [Bool.false_eq_true, if_false, Int.pow_eq]
    rw [if_neg (by omega), if_neg (by omega)]
    have hcast : (acc : Int) * 10 + ((c.toNat - '0'.toNat : Nat) : Int) =
        ((10 * acc + (c.toNat - '0'.toNat) : Nat) : Int) := by push_cast; omega
    rw [hcast]
    exact ih (fun x hx => hcs x (List.mem_cons_of_mem _ hx)) _ hb

/-- The digits of an exponent at most `2^127`, after a minus sign, are read as its negation. -/
theorem accumulateExponent_minus (cs : List Char) (hcs : ∀ c ∈ cs, c.isDigit = true) (acc : Nat)
    (hb : Nat.ofDigitChars 10 cs acc ≤ 2 ^ 127) :
    accumulateExponent true cs (-(acc : Int)) = .ok (-(Nat.ofDigitChars 10 cs acc : Int)) := by
  induction cs generalizing acc with
  | nil => rfl
  | cons c cs ih =>
    have hc := hcs c List.mem_cons_self
    rw [Nat.ofDigitChars_cons] at hb ⊢
    have hle := le_ofDigitChars cs (10 * acc + (c.toNat - '0'.toNat))
    rw [accumulateExponent.eq_2, digitValue?_of_isDigit hc]
    simp only [if_true, Int.pow_eq]
    rw [if_neg (by omega), if_neg (by omega)]
    have hcast : -(acc : Int) * 10 - ((c.toNat - '0'.toNat : Nat) : Int) =
        -((10 * acc + (c.toNat - '0'.toNat) : Nat) : Int) := by push_cast; omega
    rw [hcast]
    exact ih (fun x hx => hcs x (List.mem_cons_of_mem _ hx)) _ hb

/-! ## Splitting a text -/

theorem splitAtFirst_of_forall {p : Char → Bool} {cs : List Char}
    (h : ∀ c ∈ cs, p c = false) : splitAtFirst p cs = (cs, none) := by
  rw [splitAtFirst, List.findIdx?_eq_none_iff.2 h]

theorem splitAtFirst_append_cons {p : Char → Bool} {front back : List Char} {c : Char}
    (h : ∀ x ∈ front, p x = false) (hc : p c = true) :
    splitAtFirst p (front ++ c :: back) = (front, some back) := by
  have hi : (front ++ c :: back).findIdx? p = some front.length := by
    rw [List.findIdx?_append, List.findIdx?_eq_none_iff.2 h]
    simp [List.findIdx?_cons, hc]
  rw [splitAtFirst, hi]
  simp

/-! ## Reading a text in parts -/

/-- How a text is read once it is known where its exponent and its point stand. -/
theorem parse_of_split {text : String} {base : List Char} {expPart : Option (List Char)}
    {exponent : Int} {digits : List Char} {fractional : Nat} {unscaled : Int}
    (hsplit : splitAtFirst (fun c => c = 'e' || c = 'E') text.toList = (base, expPart))
    (hexp : expPart.elim (.ok 0) parseExponent = .ok exponent)
    (hbase : base ≠ [])
    (hpoint : splitAtFirst (· = '.') base = (digits, none) ∧ fractional = 0 ∨
      ∃ lead t ts, splitAtFirst (· = '.') base = (lead, some (t :: ts)) ∧
        digits = lead ++ t :: ts ∧ fractional = ((t :: ts).filter (· ≠ '_')).length)
    (hscale : -2 ^ 63 ≤ (fractional : Int) - exponent ∧ (fractional : Int) - exponent < 2 ^ 63)
    (hint : parseInteger digits = .ok unscaled) :
    parse text = .ok ⟨unscaled, fractional - exponent⟩ := by
  have hb : base.isEmpty = false := by cases base <;> simp_all
  have hrest : (if (fractional : Int) - exponent < -2 ^ 63 ∨ 2 ^ 63 ≤ (fractional : Int) - exponent
      then throw (ParseError.scaleOverflow text)
      else (parseInteger digits >>= fun u => pure ⟨u, fractional - exponent⟩ :
        Except ParseError Decimal)) = .ok ⟨unscaled, fractional - exponent⟩ := by
    rw [if_neg (by omega), hint]
    rfl
  unfold parse
  rcases hpoint with ⟨hp, rfl⟩ | ⟨lead, t, ts, hp, rfl, rfl⟩ <;>
  · cases expPart with
    | none =>
      cases hexp
      simp only [hsplit, hb, hp, Bool.false_eq_true, if_false]
      exact hrest
    | some e =>
      simp only [Option.elim] at hexp
      simp only [hsplit, hb, hp, hexp, Bool.false_eq_true, if_false]
      exact hrest

theorem ne_of_isDigit {c x : Char} (hc : c.isDigit = true) (hx : x.isDigit = false) : c ≠ x := by
  rintro rfl
  simp_all

theorem parseInteger_sign (u : Int) (m : Nat) {cs : List Char}
    (hcs : ∀ c ∈ cs, c.isDigit = true) (hne : cs ≠ [])
    (hval : Nat.ofDigitChars 10 cs 0 = u.natAbs * m) :
    parseInteger ((if u < 0 then "-" else "").toList ++ cs) = .ok (u * m) := by
  by_cases hneg : u < 0
  · rw [if_pos hneg, show "-".toList = ['-'] from rfl, List.singleton_append,
      parseInteger_minus_digits hcs hne, hval]
    congr 1
    rw [Int.natCast_mul, Int.ofNat_natAbs_of_nonpos (Int.le_of_lt hneg), Int.neg_mul, Int.neg_neg]
  · rw [if_neg hneg, show "".toList = [] from rfl, List.nil_append, parseInteger_digits hcs hne,
      hval]
    congr 1
    rw [Int.natCast_mul, Int.natAbs_of_nonneg (by omega)]

theorem forall_sign {p : Char → Bool} (hp : p '-' = false) (u : Int) {cs : List Char}
    (hcs : ∀ c ∈ cs, p c = false) :
    ∀ x ∈ (if u < 0 then "-" else "").toList ++ cs, p x = false := by
  intro x hx
  rw [List.mem_append] at hx
  rcases hx with hx | hx
  · split at hx <;> simp_all
  · exact hcs x hx

theorem notExponentMark_of_isDigit {c : Char} (hc : c.isDigit = true) :
    (c = 'e' || c = 'E') = false := by
  simp [ne_of_isDigit hc (show 'e'.isDigit = false by decide),
    ne_of_isDigit hc (show 'E'.isDigit = false by decide)]

theorem notPoint_of_isDigit {c : Char} (hc : c.isDigit = true) : decide (c = '.') = false := by
  simp [ne_of_isDigit hc (show '.'.isDigit = false by decide)]

theorem length_filter_digits {cs : List Char} (hcs : ∀ c ∈ cs, c.isDigit = true) :
    (cs.filter (· ≠ '_')).length = cs.length := by
  rw [List.filter_eq_self.2]
  intro c hc
  simp [ne_of_isDigit (hcs c hc) (show '_'.isDigit = false by decide)]

/-! ## Signed digits, with or without a point -/

/-- Splitting at the first mark falls between a part without marks and a part that starts with
a mark or is empty. -/
theorem splitAtFirst_append {p : Char → Bool} {front tail : List Char}
    {rest : Option (List Char)} (h : ∀ x ∈ front, p x = false)
    (htail : splitAtFirst p tail = ([], rest)) : splitAtFirst p (front ++ tail) = (front, rest) := by
  rw [splitAtFirst] at htail ⊢
  rw [List.findIdx?_append, List.findIdx?_eq_none_iff.2 h, Option.none_or]
  cases hi : tail.findIdx? p with
  | none =>
    rw [hi] at htail
    obtain ⟨rfl, rfl⟩ := Prod.mk.inj htail
    simp
  | some i =>
    rw [hi] at htail
    obtain ⟨htake, rfl⟩ := Prod.mk.inj htail
    -- the mark stands first in `tail`, which is not empty since a mark was found in it
    obtain rfl : i = 0 := by
      rcases List.take_eq_nil_iff.1 htake with h0 | rfl
      · exact h0
      · simp at hi
    simp

/-- Signed digits, then nothing or an exponent: the digits read at the exponent negated. -/
theorem parse_of_digits {text : String} {u : Int} {m : Nat} {cs tail : List Char}
    {expPart : Option (List Char)} {exponent : Int}
    (htext : text.toList = ((if u < 0 then "-" else "").toList ++ cs) ++ tail)
    (htail : splitAtFirst (fun c => c = 'e' || c = 'E') tail = ([], expPart))
    (hexp : expPart.elim (.ok 0) parseExponent = .ok exponent)
    (hcs : ∀ c ∈ cs, c.isDigit = true) (hne : cs ≠ [])
    (hval : Nat.ofDigitChars 10 cs 0 = u.natAbs * m)
    (hscale : -2 ^ 63 ≤ -exponent ∧ -exponent < 2 ^ 63) :
    parse text = .ok ⟨u * m, -exponent⟩ := by
  have hsplit : splitAtFirst (fun c => c = 'e' || c = 'E') text.toList =
      ((if u < 0 then "-" else "").toList ++ cs, expPart) := by
    rw [htext]
    exact splitAtFirst_append (forall_sign rfl _ fun c hc => notExponentMark_of_isDigit (hcs c hc))
      htail
  have hpoint := splitAtFirst_of_forall (forall_sign rfl u fun c hc => notPoint_of_isDigit (hcs c hc))
  have h := parse_of_split hsplit hexp (by simp [hne]) (Or.inl ⟨hpoint, rfl⟩) (by omega)
    (parseInteger_sign u m hcs hne hval)
  rwa [Int.natCast_zero, Int.zero_sub] at h

/-- Signed digits with a point after the first `lead` of them, then nothing or an exponent: the
digits read together, at the count of those after the point less the exponent. -/
theorem parse_of_point {text : String} {u : Int} {m : Nat} {lead frac tail : List Char}
    {expPart : Option (List Char)} {exponent : Int}
    (htext : text.toList = ((if u < 0 then "-" else "").toList ++ lead ++ '.' :: frac) ++ tail)
    (htail : splitAtFirst (fun c => c = 'e' || c = 'E') tail = ([], expPart))
    (hexp : expPart.elim (.ok 0) parseExponent = .ok exponent)
    (hlead : ∀ c ∈ lead, c.isDigit = true) (hfrac : ∀ c ∈ frac, c.isDigit = true)
    (hne : frac ≠ []) (hval : Nat.ofDigitChars 10 (lead ++ frac) 0 = u.natAbs * m)
    (hscale : -2 ^ 63 ≤ (frac.length : Int) - exponent ∧ (frac.length : Int) - exponent < 2 ^ 63) :
    parse text = .ok ⟨u * m, frac.length - exponent⟩ := by
  have hdigits : ∀ c ∈ lead ++ frac, c.isDigit = true := by
    intro c hc
    rcases List.mem_append.1 hc with hc | hc
    · exact hlead c hc
    · exact hfrac c hc
  have hsplit : splitAtFirst (fun c => c = 'e' || c = 'E') text.toList =
      ((if u < 0 then "-" else "").toList ++ lead ++ '.' :: frac, expPart) := by
    have hfront : ∀ c ∈ (if u < 0 then "-" else "").toList ++ lead ++ '.' :: frac,
        (c = 'e' || c = 'E') = false := by
      rw [List.append_assoc]
      refine forall_sign rfl _ fun c hc => ?_
      rcases List.mem_append.1 hc with hc | hc
      · exact notExponentMark_of_isDigit (hlead c hc)
      rcases List.mem_cons.1 hc with rfl | hc
      · rfl
      · exact notExponentMark_of_isDigit (hfrac c hc)
    rw [htext]
    exact splitAtFirst_append hfront htail
  obtain ⟨t, ts, rfl⟩ := List.exists_cons_of_ne_nil hne
  have hpoint : splitAtFirst (· = '.') ((if u < 0 then "-" else "").toList ++ lead ++ '.' :: t :: ts) =
      ((if u < 0 then "-" else "").toList ++ lead, some (t :: ts)) :=
    splitAtFirst_append_cons (forall_sign rfl _ fun c hc => notPoint_of_isDigit (hlead c hc)) rfl
  have hint : parseInteger (((if u < 0 then "-" else "").toList ++ lead) ++ t :: ts) =
      .ok (u * m) := by
    rw [List.append_assoc]
    exact parseInteger_sign u m hdigits (by simp) hval
  have h := parse_of_split hsplit hexp (by simp) (Or.inr ⟨_, t, ts, hpoint, rfl, rfl⟩)
    (by rw [length_filter_digits hfrac]; exact hscale) hint
  rwa [length_filter_digits hfrac] at h

/-! ## The five forms of a text -/

/-- The `e+` form: digits, then the count of zeros to append. -/
theorem parse_toText_of_lt {d : Decimal} (hu : d.unscaled ≠ 0)
    (hA : ¬((Nat.toDigits 10 d.unscaled.natAbs).length : Int) + 5 < d.scale)
    (hB : d.scale < -15) (hs : -2 ^ 63 ≤ d.scale ∧ d.scale < 2 ^ 63) :
    parse d.toText = .ok d := by
  have htext : d.toText.toList = ((if d.unscaled < 0 then "-" else "").toList ++
      Nat.toDigits 10 d.unscaled.natAbs) ++ 'e' :: '+' :: Nat.toDigits 10 d.scale.natAbs := by
    simp [toText, hu, hA, hB, Nat.toList_repr]
  have hexp : parseExponent ('+' :: Nat.toDigits 10 d.scale.natAbs) =
      .ok (d.scale.natAbs : Int) := by
    rw [parseExponent.eq_4 _ Nat.toDigits_ne_nil]
    simpa [Nat.ofDigitChars_ten_toDigits] using
      accumulateExponent_plus (Nat.toDigits 10 d.scale.natAbs) (fun _ => isDigit_of_mem_toDigits)
        0 (by rw [Nat.ofDigitChars_ten_toDigits]; omega)
  have h := parse_of_digits (m := 1) htext rfl hexp (fun _ => isDigit_of_mem_toDigits)
    Nat.toDigits_ne_nil (by rw [Nat.ofDigitChars_ten_toDigits, Nat.mul_one]) (by omega)
  rwa [Int.natCast_one, Int.mul_one, show -(d.scale.natAbs : Int) = d.scale by omega] at h

/-- Positional form with zeros appended: digits at scale zero. -/
theorem parse_toText_of_nonpos {d : Decimal} (hu : d.unscaled ≠ 0)
    (hA : ¬((Nat.toDigits 10 d.unscaled.natAbs).length : Int) + 5 < d.scale)
    (hB : ¬d.scale < -15) (hC : d.scale ≤ 0) :
    parse d.toText = .ok ⟨d.unscaled * 10 ^ d.scale.natAbs, 0⟩ := by
  have hD : ∀ c ∈ Nat.toDigits 10 d.unscaled.natAbs ++ List.replicate d.scale.natAbs '0',
      c.isDigit = true := by
    intro c hc
    rcases List.mem_append.1 hc with hc | hc
    · exact isDigit_of_mem_toDigits hc
    · rw [List.eq_of_mem_replicate hc]
      rfl
  have htext : d.toText.toList = ((if d.unscaled < 0 then "-" else "").toList ++
      (Nat.toDigits 10 d.unscaled.natAbs ++ List.replicate d.scale.natAbs '0')) ++ [] := by
    simp [toText, hu, hA, hB, hC, zeros]
  have hval : Nat.ofDigitChars 10
      (Nat.toDigits 10 d.unscaled.natAbs ++ List.replicate d.scale.natAbs '0') 0 =
      d.unscaled.natAbs * 10 ^ d.scale.natAbs := by
    rw [Nat.ofDigitChars_append, Nat.ofDigitChars_ten_toDigits, Nat.ofDigitChars_replicate_zero,
      Nat.mul_comm]
  have h := parse_of_digits htext rfl rfl hD (by simp [Nat.toDigits_ne_nil]) hval (by omega)
  rwa [Int.neg_zero, Int.natCast_pow] at h

/-- Positional form with a point: the digits, the point placed `scale` digits from the right,
and zeros before them if there are fewer digits than that. -/
theorem parse_toText_of_pos {d : Decimal} (hu : d.unscaled ≠ 0)
    (hA : ¬((Nat.toDigits 10 d.unscaled.natAbs).length : Int) + 5 < d.scale)
    (hB : ¬d.scale < -15) (hC : ¬d.scale ≤ 0) (hs : d.scale < 2 ^ 63) :
    parse d.toText = .ok d := by
  have hD : ∀ c ∈ Nat.toDigits 10 d.unscaled.natAbs, c.isDigit = true :=
    fun _ => isDigit_of_mem_toDigits
  have hne : Nat.toDigits 10 d.unscaled.natAbs ≠ [] := Nat.toDigits_ne_nil
  have hlen := List.length_pos_iff.2 hne
  by_cases hshort : (Nat.toDigits 10 d.unscaled.natAbs).length ≤ d.scale.toNat
  · -- `0.`, then zeros, then all the digits
    have hcs : ∀ c ∈ List.replicate (d.scale.toNat -
        (Nat.toDigits 10 d.unscaled.natAbs).length) '0' ++ Nat.toDigits 10 d.unscaled.natAbs,
        c.isDigit = true := by
      intro c hc
      rcases List.mem_append.1 hc with hc | hc
      · rw [List.eq_of_mem_replicate hc]
        rfl
      · exact hD c hc
    have htext : d.toText.toList = ((if d.unscaled < 0 then "-" else "").toList ++ ['0'] ++
        '.' :: (List.replicate (d.scale.toNat - (Nat.toDigits 10 d.unscaled.natAbs).length) '0' ++
          Nat.toDigits 10 d.unscaled.natAbs)) ++ [] := by
      simp [toText, hu, hA, hB, hC, hshort, zeros]
    have hval : Nat.ofDigitChars 10 (['0'] ++ (List.replicate (d.scale.toNat -
        (Nat.toDigits 10 d.unscaled.natAbs).length) '0' ++ Nat.toDigits 10 d.unscaled.natAbs)) 0 =
        d.unscaled.natAbs * 1 := by
      rw [List.singleton_append, ← List.cons_append, ← List.replicate_succ,
        Nat.ofDigitChars_append, Nat.ofDigitChars_replicate_zero, Nat.mul_zero,
        Nat.ofDigitChars_ten_toDigits, Nat.mul_one]
    have h := parse_of_point htext rfl rfl (by simp) hcs (by simp [hne]) hval
      (by simp only [List.length_append, List.length_replicate]; omega)
    rwa [List.length_append, List.length_replicate, Int.natCast_one, Int.mul_one,
      show (((d.scale.toNat - (Nat.toDigits 10 d.unscaled.natAbs).length +
        (Nat.toDigits 10 d.unscaled.natAbs).length : Nat)) : Int) - 0 = d.scale by omega] at h
  · -- the digits with the point among them
    have htext : d.toText.toList = ((if d.unscaled < 0 then "-" else "").toList ++
        (Nat.toDigits 10 d.unscaled.natAbs).take
          ((Nat.toDigits 10 d.unscaled.natAbs).length - d.scale.toNat) ++
        '.' :: (Nat.toDigits 10 d.unscaled.natAbs).drop
          ((Nat.toDigits 10 d.unscaled.natAbs).length - d.scale.toNat)) ++ [] := by
      simp [toText, hu, hA, hB, hC, hshort]
    have hval : Nat.ofDigitChars 10 ((Nat.toDigits 10 d.unscaled.natAbs).take
        ((Nat.toDigits 10 d.unscaled.natAbs).length - d.scale.toNat) ++
        (Nat.toDigits 10 d.unscaled.natAbs).drop
          ((Nat.toDigits 10 d.unscaled.natAbs).length - d.scale.toNat)) 0 =
        d.unscaled.natAbs * 1 := by
      rw [List.take_append_drop, Nat.ofDigitChars_ten_toDigits, Nat.mul_one]
    have h := parse_of_point htext rfl rfl (fun c hc => hD c (List.mem_of_mem_take hc))
      (fun c hc => hD c (List.mem_of_mem_drop hc)) (by simp; omega) hval
      (by simp only [List.length_drop]; omega)
    rwa [List.length_drop, Int.natCast_one, Int.mul_one,
      show (((Nat.toDigits 10 d.unscaled.natAbs).length -
        ((Nat.toDigits 10 d.unscaled.natAbs).length - d.scale.toNat) : Nat) : Int) - 0 = d.scale
        by omega] at h

/-- The exponent form: the first digit, a point and the others if there are any, then `E-` and
the exponent that puts the point back. -/
theorem parse_toText_of_gt {d : Decimal} (hu : d.unscaled ≠ 0)
    (hA : ((Nat.toDigits 10 d.unscaled.natAbs).length : Int) + 5 < d.scale)
    (hs : d.scale < 2 ^ 63) : parse d.toText = .ok d := by
  have hD : ∀ c ∈ Nat.toDigits 10 d.unscaled.natAbs, c.isDigit = true :=
    fun _ => isDigit_of_mem_toDigits
  have hneg : ((Nat.toDigits 10 d.unscaled.natAbs).length : Int) - d.scale - 1 < 0 := by omega
  obtain ⟨e, he⟩ : ∃ e : Nat,
      (((Nat.toDigits 10 d.unscaled.natAbs).length : Int) - d.scale - 1).natAbs = e := ⟨_, rfl⟩
  have hexp : parseExponent ('-' :: Nat.toDigits 10 e) = .ok (-(e : Int)) := by
    rw [parseExponent.eq_5 _ Nat.toDigits_ne_nil]
    simpa [Nat.ofDigitChars_ten_toDigits] using accumulateExponent_minus _
      (fun _ => isDigit_of_mem_toDigits) 0 (by rw [Nat.ofDigitChars_ten_toDigits]; omega)
  obtain ⟨f, rest, hfr⟩ := List.exists_cons_of_ne_nil (@Nat.toDigits_ne_nil d.unscaled.natAbs 10)
  cases rest with
  | nil =>
    -- one digit: no point
    have htext : d.toText.toList = ((if d.unscaled < 0 then "-" else "").toList ++
        Nat.toDigits 10 d.unscaled.natAbs) ++ 'E' :: '-' :: Nat.toDigits 10 e := by
      simp only [toText, hu, hA, hneg, if_false, if_true, he]
      rw [hfr]
      simp [Nat.toList_repr]
    have hlen : (Nat.toDigits 10 d.unscaled.natAbs).length = 1 := by
      rw [hfr]
      rfl
    have h := parse_of_digits (m := 1) htext rfl hexp hD Nat.toDigits_ne_nil
      (by rw [Nat.ofDigitChars_ten_toDigits, Nat.mul_one]) (by omega)
    rwa [Int.natCast_one, Int.mul_one, show -(-(e : Int)) = d.scale by omega] at h
  | cons g r =>
    -- several digits: a point after the first
    have htext : d.toText.toList = ((if d.unscaled < 0 then "-" else "").toList ++ [f] ++
        '.' :: g :: r) ++ 'E' :: '-' :: Nat.toDigits 10 e := by
      simp only [toText, hu, hA, hneg, if_false, if_true, he]
      rw [hfr]
      simp [Nat.toList_repr]
    have hdigits : Nat.toDigits 10 d.unscaled.natAbs = [f] ++ g :: r := hfr
    have hval : Nat.ofDigitChars 10 ([f] ++ g :: r) 0 = d.unscaled.natAbs * 1 := by
      rw [← hdigits, Nat.ofDigitChars_ten_toDigits, Nat.mul_one]
    have hlen : (Nat.toDigits 10 d.unscaled.natAbs).length = r.length + 2 := by
      rw [hfr]
      rfl
    have h := parse_of_point htext rfl hexp
      (fun c hc => hD c (by rw [hdigits]; exact List.mem_append_left _ hc))
      (fun c hc => hD c (by rw [hdigits]; exact List.mem_append_right _ hc)) (by simp) hval
      (by simp only [List.length_cons]; omega)
    rwa [Int.natCast_one, Int.mul_one, List.length_cons,
      show (((r.length + 1 : Nat)) : Int) - -(e : Int) = d.scale by omega] at h

/-! ## Round trip -/

/-- **Decimal text read back.** The text of a decimal whose scale fits in 64 bits reads back as
`reread`: itself, unless it is zero or was written with zeros after its digits. -/
theorem parse_toText (d : Decimal) (hs : -2 ^ 63 ≤ d.scale ∧ d.scale < 2 ^ 63) :
    parse d.toText = .ok d.reread := by
  by_cases hu : d.unscaled = 0
  · rw [toText, if_pos hu, reread, if_pos hu]
    rfl
  by_cases hA : ((Nat.toDigits 10 d.unscaled.natAbs).length : Int) + 5 < d.scale
  · rw [parse_toText_of_gt hu hA hs.2, reread, if_neg hu, if_neg (by omega)]
  by_cases hB : d.scale < -15
  · rw [parse_toText_of_lt hu hA hB hs, reread, if_neg hu, if_neg (by omega)]
  by_cases hC : d.scale ≤ 0
  · rw [parse_toText_of_nonpos hu hA hB hC, reread, if_neg hu]
    by_cases h0 : d.scale = 0
    · rw [if_neg (by omega)]
      obtain ⟨u, k⟩ := d
      simp only at h0
      simp [h0]
    · rw [if_pos (by omega)]
  · rw [parse_toText_of_pos hu hA hB hC hs.2, reread, if_neg hu, if_neg (by omega)]

/-- Appending `k` zeros to the digits of a positive number writes it times `10^k`. -/
theorem toDigits_mul_pow {n : Nat} (hn : 0 < n) (k : Nat) :
    Nat.toDigits 10 (n * 10 ^ k) = Nat.toDigits 10 n ++ List.replicate k '0' := by
  induction k with
  | zero => simp
  | succ k ih =>
    have hpos : 0 < n * 10 ^ k := Nat.mul_pos hn (Nat.pow_pos (by decide))
    rw [List.replicate_succ', ← List.append_assoc, ← ih,
      show ['0'] = Nat.toDigits 10 0 from rfl, Nat.toDigits_append_toDigits (by decide) hpos
        (by decide), Nat.pow_succ, Nat.add_zero, Nat.mul_comm 10, Nat.mul_assoc]

/-- Text written, read and written again is the text first written. -/
theorem toText_reread (d : Decimal) : d.reread.toText = d.toText := by
  by_cases hu : d.unscaled = 0
  · rw [reread, if_pos hu, toText, toText, if_pos hu, if_pos rfl]
  by_cases hk : -15 ≤ d.scale ∧ d.scale < 0
  · rw [reread, if_neg hu, if_pos hk]
    have hu' : d.unscaled * 10 ^ d.scale.natAbs ≠ 0 :=
      Int.mul_ne_zero hu (Int.pow_ne_zero (by decide))
    have hp : (0 : Int) < 10 ^ d.scale.natAbs := Int.pow_pos (by decide)
    have hsign : d.unscaled * 10 ^ d.scale.natAbs < 0 ↔ d.unscaled < 0 := by
      constructor
      · intro h
        refine Int.lt_of_not_ge fun h' => ?_
        have := Int.mul_nonneg h' (Int.le_of_lt hp)
        omega
      · intro h
        exact Int.mul_neg_of_neg_of_pos h hp
    have hdig : Nat.toDigits 10 (d.unscaled * 10 ^ d.scale.natAbs).natAbs =
        Nat.toDigits 10 d.unscaled.natAbs ++ List.replicate d.scale.natAbs '0' := by
      rw [Int.natAbs_mul, Int.natAbs_pow]
      exact toDigits_mul_pow (Int.natAbs_pos.2 hu) _
    have hA : ¬((Nat.toDigits 10 d.unscaled.natAbs).length : Int) + 5 < d.scale := by omega
    simp only [toText, if_neg hu, if_neg hu', hsign, hdig, if_neg hA,
      if_neg (show ¬d.scale < -15 by omega), if_pos (show d.scale ≤ 0 by omega)]
    rw [if_neg (show ¬((Nat.toDigits 10 d.unscaled.natAbs ++
        List.replicate d.scale.natAbs '0').length : Int) + 5 < 0 by omega),
      if_neg (show ¬(0 : Int) < -15 by decide), if_pos (Int.le_refl 0)]
    simp [zeros]
  · rw [reread, if_neg hu, if_neg hk]

end WorkLedger.Decimal
