import Mathlib
import WorkLedger.Proofs.DecimalArithmetic
import WorkLedger.Chain.Target

/-!
# Targets as numbers

A digest stands for the big-endian number of its bytes (`Digest.toNat`). Masking one digest by
another takes the bitwise AND of the two numbers, whatever their lengths
(`Digest.toNat_maskWith`), so a digest meets a mask that is all ones below some bit exactly when
its number is at most the mask's (`Digest.meets_iff_le`). `Digest.maskWith_ands_big_endian`
gathers the laws of masking that follow: a digest meets a mask when each bit it sets is set in
the mask, masking a digest by itself gives it back, and masking is associative, since the AND
of numbers is.

The target of difficulty `d` is 64 bytes long and stands for `max 1 (2^(512 - z - s) - 1)`,
where `z` is the chain's zero bits and `s = ⌈log₂ ⌈d⌉⌉`, zero when `⌈d⌉ ≤ 1`, the halvings that
`d` asks for (`Target.halvings_eq`, `Target.toNat_ofDifficulty`). `Target.meets_iff_le_bound`:
a hash of any length meets the target exactly when its number is at most that bound; whether a
header meets its target depends on its difficulty only through `s`, and a hash that meets a
target meets the target of every lower difficulty.
-/

namespace WorkLedger

/-- Two numbers below `2^w`, each with a multiple of `2^w` added, AND digit block by digit
block. -/
theorem Nat.two_pow_mul_add_and {w x y a b : Nat} (ha : a < 2 ^ w) (hb : b < 2 ^ w) :
    (2 ^ w * x + a) &&& (2 ^ w * y + b) = 2 ^ w * (x &&& y) + (a &&& b) := by
  apply Nat.eq_of_testBit_eq
  intro i
  have hab : a &&& b < 2 ^ w := Nat.and_lt_two_pow a hb
  simp only [Nat.testBit_and, Nat.testBit_two_pow_mul_add _ ha, Nat.testBit_two_pow_mul_add _ hb,
    Nat.testBit_two_pow_mul_add _ hab]
  split <;> rfl

/-- All ones below bit `n`, shifted right by `k`: all ones below bit `n - k`. -/
theorem Nat.two_pow_sub_one_shiftRight (n k : Nat) : (2 ^ n - 1) >>> k = 2 ^ (n - k) - 1 := by
  apply Nat.eq_of_testBit_eq
  intro i
  simp only [Nat.testBit_shiftRight, Nat.testBit_two_pow_sub_one]
  apply decide_eq_decide.2
  omega

namespace Digest

/-- The number whose big-endian bytes a digest holds. -/
def toNat (d : Digest) : Nat := Nat.ofDigits 256 (d.bytes.reverse.map UInt8.toNat)

theorem digits_lt (d : Digest) : ∀ x ∈ d.bytes.reverse.map UInt8.toNat, x < 256 := by
  intro x hx
  obtain ⟨b, -, rfl⟩ := List.mem_map.1 hx
  exact b.toNat_lt

theorem toNat_lt (d : Digest) : d.toNat < 256 ^ d.length := by
  have h := Nat.ofDigits_lt_base_pow_length (by norm_num) d.digits_lt
  rwa [List.length_map, List.length_reverse] at h

theorem toNat_append (a b : List UInt8) :
    (⟨a ++ b⟩ : Digest).toNat = 256 ^ b.length * (⟨a⟩ : Digest).toNat + (⟨b⟩ : Digest).toNat := by
  simp only [toNat, List.reverse_append, List.map_append, Nat.ofDigits_append, List.length_map,
    List.length_reverse]
  ring

theorem toNat_cons (x : UInt8) (a : List UInt8) :
    (⟨x :: a⟩ : Digest).toNat = 256 ^ a.length * x.toNat + (⟨a⟩ : Digest).toNat := by
  have h := toNat_append [x] a
  simp only [List.singleton_append] at h
  rw [h]
  simp [toNat]

@[simp] theorem toNat_nil : (⟨[]⟩ : Digest).toNat = 0 := rfl

@[simp] theorem toNat_replicate_zero (k : Nat) : (⟨List.replicate k 0⟩ : Digest).toNat = 0 := by
  simp [toNat, List.reverse_replicate, List.map_replicate]

/-- Bytes of one length AND byte by byte as their numbers do. -/
theorem toNat_zipWith_and {a b : List UInt8} (h : a.length = b.length) :
    (⟨List.zipWith (· &&& ·) a b⟩ : Digest).toNat = (⟨a⟩ : Digest).toNat &&& (⟨b⟩ : Digest).toNat := by
  induction a generalizing b with
  | nil => simp
  | cons x a ih =>
    cases b with
    | nil => simp at h
    | cons y b =>
      have hlen : a.length = b.length := by simpa using h
      have hpow : (256 : Nat) ^ a.length = 2 ^ (8 * a.length) := by rw [pow_mul]; rfl
      have ha := toNat_lt ⟨a⟩
      have hb := toNat_lt ⟨b⟩
      simp only [length] at ha hb
      rw [List.zipWith_cons_cons, toNat_cons, toNat_cons, toNat_cons, List.length_zipWith,
        ← hlen, min_self, ih hlen, hpow, UInt8.toNat_and]
      rw [hpow] at ha
      rw [← hlen, hpow] at hb
      exact (Nat.two_pow_mul_add_and ha hb).symm

@[simp] theorem length_maskWith (d m : Digest) : (d.maskWith m).length = d.length := by
  simp only [maskWith, length, List.length_append, List.length_replicate, List.length_zipWith,
    List.length_drop]
  omega

/-- **Masking is the AND of the numbers**, the two digests aligned at their last byte. -/
theorem toNat_maskWith (d m : Digest) : (d.maskWith m).toNat = d.toNat &&& m.toNat := by
  obtain ⟨a⟩ := d
  obtain ⟨b⟩ := m
  -- each digest splits into a leading part and its last `min` bytes; one leading part is empty
  have hsplit_a := toNat_append (a.take (a.length - b.length)) (a.drop (a.length - b.length))
  have hsplit_b := toNat_append (b.take (b.length - a.length)) (b.drop (b.length - a.length))
  rw [List.take_append_drop] at hsplit_a hsplit_b
  have hA : (a.drop (a.length - b.length)).length = min a.length b.length := by simp; omega
  have hB : (b.drop (b.length - a.length)).length = min a.length b.length := by simp; omega
  have hpow : (256 : Nat) ^ min a.length b.length = 2 ^ (8 * min a.length b.length) := by
    rw [pow_mul]; rfl
  have hAlt := toNat_lt ⟨a.drop (a.length - b.length)⟩
  have hBlt := toNat_lt ⟨b.drop (b.length - a.length)⟩
  simp only [length, hA, hB, hpow] at hAlt hBlt
  have hhigh : (⟨a.take (a.length - b.length)⟩ : Digest).toNat &&&
      (⟨b.take (b.length - a.length)⟩ : Digest).toNat = 0 := by
    rcases Nat.le_total a.length b.length with hle | hle <;> simp [Nat.sub_eq_zero_of_le hle]
  rw [hsplit_a, hsplit_b, hA, hB, hpow, Nat.two_pow_mul_add_and hAlt hBlt, hhigh, mul_zero,
    zero_add, maskWith, toNat_append, toNat_replicate_zero, mul_zero, zero_add]
  exact toNat_zipWith_and (hA.trans hB.symm)

/-- Digests of one length with one number are equal. -/
theorem eq_of_toNat_eq {a b : Digest} (hl : a.length = b.length) (h : a.toNat = b.toNat) :
    a = b := by
  have hdigits := Nat.ofDigits_inj_of_len_eq (by norm_num) (by simpa [length] using hl)
    a.digits_lt b.digits_lt h
  have hbytes : a.bytes.reverse = b.bytes.reverse :=
    List.map_injective_iff.2 (fun _ _ h => UInt8.toNat_inj.1 h) hdigits
  cases a
  cases b
  simpa using hbytes

/-- A digest meets a mask exactly when masking keeps its number. -/
theorem meets_iff (d t : Digest) : d.meets t = true ↔ d.toNat &&& t.toNat = d.toNat := by
  rw [meets, beq_iff_eq, ← toNat_maskWith]
  exact ⟨congrArg toNat, eq_of_toNat_eq (length_maskWith d t)⟩

/-- A digest meets a mask of all ones below bit `j` exactly when its number is at most the
mask's. -/
theorem meets_iff_le {d t : Digest} {j : Nat} (ht : t.toNat = 2 ^ j - 1) :
    d.meets t = true ↔ d.toNat ≤ 2 ^ j - 1 := by
  rw [meets_iff, ht, Nat.and_two_pow_sub_one_eq_mod, Nat.mod_eq_iff_lt (by positivity)]
  have := Nat.one_le_two_pow (n := j)
  omega

/-! ## Masking as an operation on numbers -/

/-- A digest meets a mask exactly when every bit set in its number is set in the mask's. -/
theorem meets_iff_testBit (d t : Digest) :
    d.meets t = true ↔ ∀ i, d.toNat.testBit i = true → t.toNat.testBit i = true := by
  rw [meets_iff]
  constructor
  · intro h i hi
    have hbit := congrArg (Nat.testBit · i) h
    simpa [Nat.testBit_and, hi] using hbit
  · intro h
    apply Nat.eq_of_testBit_eq
    intro i
    rw [Nat.testBit_and]
    cases hi : d.toNat.testBit i
    · rfl
    · simp [h i hi]

/-- A digest that meets a mask has no bit above the mask's bytes. -/
theorem toNat_lt_of_meets {d t : Digest} (h : d.meets t = true) : d.toNat < 256 ^ t.length := by
  rw [meets_iff] at h
  calc d.toNat = d.toNat &&& t.toNat := h.symm
    _ ≤ t.toNat := Nat.and_le_right
    _ < 256 ^ t.length := toNat_lt t

theorem maskWith_self (a : Digest) : a.maskWith a = a :=
  eq_of_toNat_eq (length_maskWith a a) (by rw [toNat_maskWith, Nat.and_self])

theorem maskWith_assoc (a b c : Digest) :
    (a.maskWith b).maskWith c = a.maskWith (b.maskWith c) := by
  apply eq_of_toNat_eq
  · simp only [length_maskWith]
  · simp only [toNat_maskWith, Nat.and_assoc]

/-- **Masking is the AND of big-endian numbers.** Masking keeps the length of the masked
digest and takes the AND of the two numbers, the digests aligned at their last byte; a digest
meets a mask exactly when the AND keeps its number, that is when every bit it sets is set in
the mask, and then it has no bit above the mask's bytes; masking a digest by itself gives it
back, and masking is associative. -/
theorem maskWith_ands_big_endian :
    (∀ a m : Digest,
      (a.maskWith m).length = a.length ∧ (a.maskWith m).toNat = a.toNat &&& m.toNat) ∧
    (∀ h t : Digest,
      (h.meets t = true ↔ h.toNat &&& t.toNat = h.toNat) ∧
      (h.meets t = true ↔ ∀ i, h.toNat.testBit i = true → t.toNat.testBit i = true) ∧
      (h.meets t = true → h.toNat < 256 ^ t.length)) ∧
    (∀ a : Digest, a.maskWith a = a) ∧
    (∀ a b c : Digest, (a.maskWith b).maskWith c = a.maskWith (b.maskWith c)) :=
  ⟨fun a m => ⟨length_maskWith a m, toNat_maskWith a m⟩,
    fun h t => ⟨meets_iff h t, meets_iff_testBit h t, toNat_lt_of_meets⟩,
    maskWith_self, maskWith_assoc⟩

end Digest

namespace Target

open Decimal

/-- The target number before its last byte is raised: all ones below bit `512 - z - s`. -/
theorem value_eq (z s : Nat) : value z s = 2 ^ (512 - z - s) - 1 := by
  show value z s = 2 ^ (ChainParams.hashBits - z - s) - 1
  unfold value
  split
  · rw [show ChainParams.hashBits - z - s = 0 by omega]
    rfl
  · rw [Nat.pow_eq, Nat.two_pow_sub_one_shiftRight, Nat.two_pow_sub_one_shiftRight]

/-- Big-endian bytes of the low `k` bytes of a number. -/
theorem toNat_lowBytes (n k : Nat) :
    (⟨(List.range k).reverse.map fun i => (n >>> (8 * i)).toUInt8⟩ : Digest).toNat =
      n % 256 ^ k := by
  induction k with
  | zero => simp [Nat.mod_one]
  | succ k ih =>
    have hbyte : (n >>> (8 * k)).toUInt8.toNat = n / 256 ^ k % 256 := by
      rw [Nat.toUInt8_eq, UInt8.toNat_ofNat', Nat.shiftRight_eq_div_pow, pow_mul]
      rfl
    rw [List.range_succ, List.reverse_append, List.reverse_singleton, List.singleton_append,
      List.map_cons, Digest.toNat_cons, ih, hbyte, List.length_map, List.length_reverse,
      List.length_range, pow_succ, Nat.mod_mul]
    ring

theorem toNat_bigEndian (n : Nat) : (⟨bigEndian n⟩ : Digest).toNat = n % 2 ^ 512 := by
  rw [bigEndian, toNat_lowBytes, show Digest.width = 64 from rfl,
    show (256 : Nat) = 2 ^ 8 from rfl, ← pow_mul]

theorem getLast?_bigEndian (n : Nat) : (bigEndian n).getLast? = some n.toUInt8 := by
  simp [bigEndian, Digest.width, List.getLast?_reverse, List.head?_range]

@[simp] theorem length_ofDifficulty (p : ChainParams) (d : Decimal) :
    (ofDifficulty p d).length = 64 := by
  simp [ofDifficulty, bigEndian, Digest.length, Digest.width]

/-- The target stands for `max 1 (2^(512 - z - s) - 1)`: raising an empty target's last byte to
one makes it one, and a target that is not empty already ends in a one bit. -/
theorem toNat_ofDifficulty (p : ChainParams) (d : Decimal) :
    (ofDifficulty p d).toNat = max 1 (2 ^ (512 - p.maxZeroBits.toNat - halvings d) - 1) := by
  set j := 512 - p.maxZeroBits.toNat - halvings d
  have hV : value p.maxZeroBits.toNat (halvings d) = 2 ^ j - 1 := value_eq _ _
  obtain ⟨ys, hys⟩ := List.getLast?_eq_some_iff.1 (getLast?_bigEndian (2 ^ j - 1))
  have hlt : 2 ^ j - 1 < 2 ^ 512 := by
    have := Nat.pow_le_pow_right (by norm_num : 0 < 2) (show j ≤ 512 by omega)
    omega
  -- the number is its leading bytes and its last byte
  have hval : 256 * (⟨ys⟩ : Digest).toNat + (2 ^ j - 1) % 256 = 2 ^ j - 1 := by
    have h := toNat_bigEndian (2 ^ j - 1)
    rw [hys, Digest.toNat_append, Nat.mod_eq_of_lt hlt] at h
    simpa [Digest.toNat_cons] using h
  -- the last byte of all ones below bit `j` is zero only when the number is
  have hlast : (2 ^ j - 1) % 256 = 0 → 2 ^ j - 1 = 0 := by
    intro h0
    rcases Nat.eq_zero_or_pos j with hj0 | hjpos
    · simp [hj0]
    · have h2 := Nat.two_pow_mod_two_eq_zero.2 hjpos
      have := Nat.one_le_two_pow (n := j)
      omega
  simp only [ofDifficulty, hV, hys, List.dropLast_concat, List.getLast?_append,
    List.getLast?_singleton, Option.some_or, Option.getD_some]
  rw [Digest.toNat_append]
  simp only [List.length_singleton, pow_one, Digest.toNat_cons, List.length_nil, pow_zero, one_mul,
    Digest.toNat_nil, add_zero, UInt8.toNat_max, Nat.toUInt8_eq, UInt8.toNat_ofNat',
    UInt8.toNat_one, show (2 : Nat) ^ 8 = 256 from rfl]
  omega

/-- The number of bits of `c - 1`, for `c ≥ 2`: the upper binary logarithm of `c`. -/
theorem clog_two_eq_log_pred {c : Nat} (hc : 2 ≤ c) : Nat.clog 2 c = Nat.log 2 (c - 1) + 1 := by
  apply le_antisymm
  · apply Nat.clog_le_of_le_pow
    have := Nat.lt_pow_succ_log_self (b := 2) (by norm_num) (c - 1)
    omega
  · apply Nat.succ_le_of_lt
    apply (Nat.lt_clog_iff_pow_lt (by norm_num)).2
    have := Nat.pow_log_le_self 2 (show c - 1 ≠ 0 by omega)
    omega

/-- A difficulty with more than two hundred trailing zeros and positive digits is above `2^512`,
past every halving. -/
theorem pow_lt_ceil_of_scale {d : Decimal} (hscale : d.scale < -200) (hpos : 0 < d.unscaled) :
    2 ^ 512 < ⌈d.val⌉.toNat := by
  have hval : (2 : ℚ) ^ 512 < d.val :=
    calc (2 : ℚ) ^ 512 < 8 ^ 171 := by
          rw [show (8 : ℚ) = 2 ^ 3 by norm_num, ← pow_mul]
          exact pow_lt_pow_right₀ (by norm_num) (by norm_num)
      _ < 10 ^ 171 := pow_lt_pow_left₀ (by norm_num) (by norm_num) (by norm_num)
      _ = 10 ^ (171 : ℤ) := (zpow_natCast 10 171).symm
      _ ≤ 10 ^ (-d.scale) := zpow_le_zpow_right₀ (by norm_num) (by omega)
      _ ≤ d.unscaled * 10 ^ (-d.scale) :=
          le_mul_of_one_le_left (by positivity) (by exact_mod_cast hpos)
  have hceil : (2 : ℤ) ^ 512 < ⌈d.val⌉ := Int.lt_ceil.2 (by exact_mod_cast hval)
  omega

/-- **The halvings of a difficulty** are `⌈log₂ ⌈d⌉⌉`, none when `⌈d⌉ ≤ 1`, counted up to 512. -/
theorem halvings_eq (d : Decimal) : halvings d = min maxHalvings (Nat.clog 2 ⌈d.val⌉.toNat) := by
  unfold halvings
  split
  · rename_i hscale
    split
    · rename_i hpos
      have hclog : 511 < Nat.clog 2 ⌈d.val⌉.toNat :=
        (Nat.lt_clog_iff_pow_lt (by norm_num)).2
          (by have := pow_lt_ceil_of_scale hscale hpos; omega)
      simp only [maxHalvings]
      omega
    · rename_i hnonpos
      have hval : d.val ≤ 0 := by
        rw [val_mk]
        exact mul_nonpos_of_nonpos_of_nonneg (by exact_mod_cast not_lt.1 hnonpos) (by positivity)
      have hzero : ⌈d.val⌉.toNat = 0 := Int.toNat_eq_zero.2 (Int.ceil_le.2 (by simpa using hval))
      simp [hzero]
  · rw [roundTo_eq]
    simp only [roundInt, zpow_zero, mul_one]
    split
    · rename_i hle
      rw [Nat.clog_of_right_le_one (by omega)]
      rfl
    · rename_i hgt
      rw [clog_two_eq_log_pred (by omega), Nat.log2_eq_log_two, show (⌈d.val⌉ - 1).toNat = ⌈d.val⌉.toNat - 1 by omega]

example : halvings ⟨45, 1⟩ = 3 := by decide

/-- The bound of a target in terms of the halvings before they are counted up to 512. -/
theorem bound_halvings (z : Nat) (d : Decimal) :
    512 - z - halvings d = 512 - z - Nat.clog 2 ⌈d.val⌉.toNat := by
  rw [halvings_eq, maxHalvings]
  omega

theorem max_one_two_pow_sub_one (j : Nat) : max 1 (2 ^ j - 1) = 2 ^ max 1 j - 1 := by
  rcases Nat.eq_zero_or_pos j with rfl | hj
  · rfl
  · have := Nat.one_le_two_pow (n := j)
    have h2 : 2 ≤ 2 ^ j := by
      calc 2 = 2 ^ 1 := rfl
        _ ≤ 2 ^ j := Nat.pow_le_pow_right (by norm_num) hj
    rw [max_eq_right (by omega), max_eq_right (by omega)]

theorem meets_ofDifficulty_iff (p : ChainParams) (d : Decimal) (h : Digest) :
    h.meets (ofDifficulty p d) = true ↔
      h.toNat ≤ max 1 (2 ^ (512 - p.maxZeroBits.toNat - Nat.clog 2 ⌈d.val⌉.toNat) - 1) := by
  rw [Digest.meets_iff_le (by rw [toNat_ofDifficulty, max_one_two_pow_sub_one]),
    ← max_one_two_pow_sub_one, bound_halvings]

/-- A higher difficulty asks for at least as many halvings. -/
theorem clog_ceil_mono {d₁ d₂ : Decimal} (h : d₁ ≤ d₂) :
    Nat.clog 2 ⌈d₁.val⌉.toNat ≤ Nat.clog 2 ⌈d₂.val⌉.toNat :=
  Nat.clog_mono_right 2 (Int.toNat_le_toNat (Int.ceil_mono (le_iff_val_le.1 h)))

/-- **A target admits exactly the hashes up to its bound.** The target of every difficulty is
64 bytes; a hash of any length meets it exactly when its number is at most
`max 1 (2^(512 - z - s) - 1)` with `s = ⌈log₂ ⌈d⌉⌉`; whether a header meets its target depends
on its difficulty only through `s`; and a hash that meets the target of a difficulty meets the
target of every lower one. -/
theorem meets_iff_le_bound (p : ChainParams) :
    (∀ d : Decimal, (ofDifficulty p d).length = 64) ∧
    (∀ (d : Decimal) (h : Digest), h.meets (ofDifficulty p d) = true ↔
      h.toNat ≤ max 1 (2 ^ (512 - p.maxZeroBits.toNat - Nat.clog 2 ⌈d.val⌉.toNat) - 1)) ∧
    (∀ h₁ h₂ : Header, h₁.hash = h₂.hash →
      Nat.clog 2 ⌈h₁.difficulty.val⌉.toNat = Nat.clog 2 ⌈h₂.difficulty.val⌉.toNat →
      headerMeets p h₁ = headerMeets p h₂) ∧
    (∀ (d₁ d₂ : Decimal) (h : Digest), d₁ ≤ d₂ → h.meets (ofDifficulty p d₂) = true →
      h.meets (ofDifficulty p d₁) = true) := by
  refine ⟨length_ofDifficulty p, meets_ofDifficulty_iff p, ?_, ?_⟩
  · intro h₁ h₂ hhash hs
    rw [headerMeets, headerMeets, Bool.eq_iff_iff, meets_ofDifficulty_iff, meets_ofDifficulty_iff,
      hhash, hs]
  · intro d₁ d₂ h hd hmeets
    rw [meets_ofDifficulty_iff] at hmeets ⊢
    have hs := clog_ceil_mono hd
    -- fewer halvings leave a larger bound
    have hpow : 2 ^ (512 - p.maxZeroBits.toNat - Nat.clog 2 ⌈d₂.val⌉.toNat) ≤
        2 ^ (512 - p.maxZeroBits.toNat - Nat.clog 2 ⌈d₁.val⌉.toNat) :=
      Nat.pow_le_pow_right (by norm_num) (by omega)
    omega

end Target

end WorkLedger
