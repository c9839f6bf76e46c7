import Mathlib
import WorkLedger.Decimal.Basic

/-!
# Decimals as rational numbers

A decimal `⟨u, s⟩` stands for the rational number `u · 10^(-s)` (`Decimal.val`). The decimal
operations the chain rules use compute what they are documented to compute on these numbers:

* `Decimal.cmp_eq_compare`: the order compares the numbers, whatever the scales;
* `Decimal.val_mul`: products are exact;
* `Decimal.roundTo_eq`: rounding to scale `s` keeps the integer that the rule picks for the
  number times `10^s` (`Decimal.roundInt`: half to even, or up);
* `Decimal.val_div_ofInt`: the quotient of two positive integers is the exact quotient rounded
  half up at its hundredth significant digit, or at its units digit when it has more digits
  than that before the point (`Decimal.keptQuotient`).

Both roundings are monotone and leave their grid alone (`Decimal.roundInt_mono`,
`Decimal.keptQuotient_mono`, `Decimal.roundInt_intCast`, `Decimal.keptQuotient_of_whole`).
-/

namespace WorkLedger.Decimal

/-- The number a decimal stands for. -/
def val (d : Decimal) : ℚ := d.unscaled * 10 ^ (-d.scale)

theorem val_mk (u s : Int) : (⟨u, s⟩ : Decimal).val = u * 10 ^ (-s) := rfl

@[simp] theorem val_ofInt (n : Int) : (ofInt n).val = n := by
  simp [val, ofInt]

@[simp] theorem val_one : one.val = 1 := by
  simp [one]

@[simp] theorem val_mul (a b : Decimal) : (a * b).val = a.val * b.val := by
  show (mul a b).val = _
  rw [val, val, val, mul, Int.cast_mul, neg_add, zpow_add₀ (by norm_num)]
  ring

theorem pow_scale_pos (s : Int) : (0 : ℚ) < 10 ^ s := by positivity

theorem val_pos_iff {d : Decimal} : 0 < d.val ↔ 0 < d.unscaled := by
  rw [val, mul_pos_iff_of_pos_right (pow_scale_pos _), Int.cast_pos]

theorem val_neg_iff {d : Decimal} : d.val < 0 ↔ d.unscaled < 0 := by
  rw [val, Rat.mul_neg_iff_of_pos_right (pow_scale_pos _), Int.cast_lt_zero]

theorem val_eq_zero_iff {d : Decimal} : d.val = 0 ↔ d.unscaled = 0 := by
  simp [val, (pow_scale_pos _).ne']

/-! ## Digits -/

theorem lt_pow_digitCount (n : Nat) : n < 10 ^ digitCount n :=
  (Nat.length_toDigits_le_iff (by norm_num) Nat.length_toDigits_pos).1 le_rfl

theorem pow_digitCount_le {n : Nat} (hn : 0 < n) : 10 ^ (digitCount n - 1) ≤ n := by
  have hpos : 0 < digitCount n := Nat.length_toDigits_pos
  by_contra hlt
  rcases Nat.lt_or_ge 1 (digitCount n) with h1 | h1
  · -- fewer digits would already do
    have := (Nat.length_toDigits_le_iff (b := 10) (n := n) (k := digitCount n - 1) (by norm_num)
      (by omega)).2 (by omega)
    exact absurd this (by unfold digitCount at h1 ⊢; omega)
  · rw [show digitCount n - 1 = 0 by omega] at hlt
    omega

/-- The absolute value of a decimal: its digits times its power of ten. -/
theorem abs_val (d : Decimal) : |d.val| = (d.unscaled.natAbs : ℚ) * 10 ^ (-d.scale) := by
  rw [val, abs_mul, abs_of_pos (pow_scale_pos _), Nat.cast_natAbs, Int.cast_abs]

/-- A decimal lies below the power of ten of its magnitude. -/
theorem abs_val_lt {d : Decimal} : |d.val| < 10 ^ d.magnitude := by
  have hdigits : (d.unscaled.natAbs : ℚ) < 10 ^ (digitCount d.unscaled.natAbs : Int) := by
    exact_mod_cast lt_pow_digitCount d.unscaled.natAbs
  rw [abs_val, magnitude, sub_eq_add_neg, zpow_add₀ (by norm_num)]
  exact mul_lt_mul_of_pos_right hdigits (pow_scale_pos _)

/-- A non-zero decimal lies at or above the power of ten just below its magnitude. -/
theorem le_abs_val {d : Decimal} (hd : d.unscaled ≠ 0) : 10 ^ (d.magnitude - 1) ≤ |d.val| := by
  have hn : 0 < d.unscaled.natAbs := Int.natAbs_pos.2 hd
  have hcount : 0 < digitCount d.unscaled.natAbs := Nat.length_toDigits_pos
  have hdigits : (10 : ℚ) ^ ((digitCount d.unscaled.natAbs : Int) - 1) ≤ d.unscaled.natAbs := by
    rw [show ((digitCount d.unscaled.natAbs : Int) - 1) =
      ((digitCount d.unscaled.natAbs - 1 : Nat) : Int) by omega, zpow_natCast]
    exact_mod_cast pow_digitCount_le hn
  rw [abs_val, magnitude, show (digitCount d.unscaled.natAbs : Int) - d.scale - 1 =
      ((digitCount d.unscaled.natAbs : Int) - 1) + -d.scale by ring, zpow_add₀ (by norm_num)]
  exact mul_le_mul_of_nonneg_right hdigits (pow_scale_pos _).le

/-! ## Order -/

/-- Two comparisons agree when their strict and equal cases do. -/
theorem compare_eq_of_iff {α β : Type} [LinearOrder α] [LinearOrder β] {a b : α} {c d : β}
    (hlt : a < b ↔ c < d) (heq : a = b ↔ c = d) : compare a b = compare c d := by
  rcases lt_trichotomy a b with h | h | h
  · rw [compare_lt_iff_lt.2 h, compare_lt_iff_lt.2 (hlt.1 h)]
  · rw [compare_eq_iff_eq.2 h, compare_eq_iff_eq.2 (heq.1 h)]
  · have hdc : d < c := by
      rcases lt_trichotomy c d with h' | h' | h'
      · exact absurd (hlt.2 h') (not_lt.2 h.le)
      · exact absurd (heq.2 h') h.ne'
      · exact h'
    rw [compare_gt_iff_gt.2 h, compare_gt_iff_gt.2 hdc]

/-- The absolute value times a power of ten: the digits times the power moved by the scale. -/
theorem abs_val_mul_pow (d : Decimal) (e : Int) :
    |d.val| * 10 ^ e = (d.unscaled.natAbs : ℚ) * 10 ^ (e - d.scale) := by
  rw [abs_val, mul_assoc, ← zpow_add₀ (by norm_num), neg_add_eq_sub]

theorem compare_mul_pos {a b c : ℚ} (hc : 0 < c) : compare (a * c) (b * c) = compare a b :=
  compare_eq_of_iff (mul_lt_mul_iff_of_pos_right hc) (mul_left_inj' hc.ne')

theorem compare_natCast (m n : Nat) : compare (m : ℚ) (n : ℚ) = compare m n :=
  compare_eq_of_iff Nat.cast_lt Nat.cast_inj

/-- Two non-zero decimals of one magnitude compare by their digits, the shorter padded with
zeros. -/
theorem compare_digits {a b : Decimal} (hm : a.magnitude = b.magnitude) :
    compare (a.unscaled.natAbs * Nat.pow 10 (digitCount b.unscaled.natAbs -
        digitCount a.unscaled.natAbs))
      (b.unscaled.natAbs * Nat.pow 10 (digitCount a.unscaled.natAbs -
        digitCount b.unscaled.natAbs)) =
    compare |a.val| |b.val| := by
  set lx := digitCount a.unscaled.natAbs
  set ly := digitCount b.unscaled.natAbs
  -- scale both by `10^(a.scale + (ly - lx))`, which makes both sides whole
  have hscale : a.scale + ((ly - lx : Nat) : Int) - b.scale = ((lx - ly : Nat) : Int) := by
    simp only [magnitude] at hm
    omega
  rw [← compare_mul_pos (pow_scale_pos (a.scale + ((ly - lx : Nat) : Int))), abs_val_mul_pow,
    abs_val_mul_pow, hscale, add_sub_cancel_left, zpow_natCast, zpow_natCast, ← compare_natCast]
  simp [Nat.pow_eq]

/-- For non-zero decimals, `compareAbs` compares the absolute values. -/
theorem compareAbs_eq {a b : Decimal} (ha : a.unscaled ≠ 0) (hb : b.unscaled ≠ 0) :
    compareAbs a b = compare |a.val| |b.val| := by
  simp only [compareAbs]
  split_ifs with hlt hgt
  · -- a leading digit further left wins
    have : |a.val| < |b.val| := calc
      |a.val| < 10 ^ a.magnitude := abs_val_lt
      _ ≤ 10 ^ (b.magnitude - 1) := zpow_le_zpow_right₀ (by norm_num) (by omega)
      _ ≤ |b.val| := le_abs_val hb
    exact (compare_lt_iff_lt.2 this).symm
  · have : |b.val| < |a.val| := calc
      |b.val| < 10 ^ b.magnitude := abs_val_lt
      _ ≤ 10 ^ (a.magnitude - 1) := zpow_le_zpow_right₀ (by norm_num) (by omega)
      _ ≤ |a.val| := le_abs_val ha
    exact (compare_gt_iff_gt.2 this).symm
  · exact compare_digits (by omega)

/-- **The order of decimals is the order of the numbers they stand for**, whatever their
scales: signs first, then the place of the leading digit, then the digits. -/
theorem cmp_eq_compare (a b : Decimal) : cmp a b = compare a.val b.val := by
  have compare_self : ∀ x : Int, compare x x = .eq := fun _ => compare_eq_iff_eq.2 rfl
  rcases lt_trichotomy a.unscaled 0 with ha | ha | ha <;>
    rcases lt_trichotomy b.unscaled 0 with hb | hb | hb
  · -- both negative: the larger absolute value is the smaller number
    have hva := val_neg_iff.2 ha
    have hvb := val_neg_iff.2 hb
    simp only [cmp, Int.sign_eq_neg_one_of_neg ha, Int.sign_eq_neg_one_of_neg hb, compare_self,
      ha.ne, not_lt.2 ha.le, if_false]
    rw [compareAbs_eq hb.ne ha.ne, abs_of_neg hva, abs_of_neg hvb]
    exact compare_eq_of_iff neg_lt_neg_iff (neg_inj.trans eq_comm)
  · simp only [cmp, Int.sign_eq_neg_one_of_neg ha, hb, Int.sign_zero]
    exact (compare_lt_iff_lt.2 (by rw [val_eq_zero_iff.2 hb]; exact val_neg_iff.2 ha)).symm
  · simp only [cmp, Int.sign_eq_neg_one_of_neg ha, Int.sign_eq_one_of_pos hb]
    exact (compare_lt_iff_lt.2 ((val_neg_iff.2 ha).trans (val_pos_iff.2 hb))).symm
  · simp only [cmp, ha, Int.sign_zero, Int.sign_eq_neg_one_of_neg hb]
    exact (compare_gt_iff_gt.2 (by rw [val_eq_zero_iff.2 ha]; exact val_neg_iff.2 hb)).symm
  · simp only [cmp, ha, hb, Int.sign_zero, compare_self, if_true]
    rw [val_eq_zero_iff.2 ha, val_eq_zero_iff.2 hb, compare_eq_iff_eq.2 rfl]
  · simp only [cmp, ha, Int.sign_zero, Int.sign_eq_one_of_pos hb]
    exact (compare_lt_iff_lt.2 (by rw [val_eq_zero_iff.2 ha]; exact val_pos_iff.2 hb)).symm
  · simp only [cmp, Int.sign_eq_one_of_pos ha, Int.sign_eq_neg_one_of_neg hb]
    exact (compare_gt_iff_gt.2 ((val_neg_iff.2 hb).trans (val_pos_iff.2 ha))).symm
  · simp only [cmp, Int.sign_eq_one_of_pos ha, hb, Int.sign_zero]
    exact (compare_gt_iff_gt.2 (by rw [val_eq_zero_iff.2 hb]; exact val_pos_iff.2 ha)).symm
  · -- both positive: the absolute values decide
    simp only [cmp, Int.sign_eq_one_of_pos ha, Int.sign_eq_one_of_pos hb, compare_self,
      ha.ne', ha, if_false, if_true]
    rw [compareAbs_eq ha.ne' hb.ne', abs_of_pos (val_pos_iff.2 ha), abs_of_pos (val_pos_iff.2 hb)]

theorem le_iff_val_le {a b : Decimal} : a ≤ b ↔ a.val ≤ b.val := by
  show cmp a b ≠ .gt ↔ _
  rw [cmp_eq_compare, ne_eq, compare_gt_iff_gt, not_lt]

theorem lt_iff_val_lt {a b : Decimal} : a < b ↔ a.val < b.val := by
  show cmp a b = .lt ↔ _
  rw [cmp_eq_compare, compare_lt_iff_lt]

/-- The larger of two decimals stands for the larger number. -/
@[simp] theorem val_maxRight (a b : Decimal) : (maxRight a b).val = max a.val b.val := by
  rw [maxRight, cmp_eq_compare]
  split_ifs with h
  · exact (max_eq_left (compare_gt_iff_gt.1 h).le).symm
  · exact (max_eq_right (not_lt.1 (mt compare_gt_iff_gt.2 h))).symm

/-! ## Rounding to a scale -/

/-- The integer a rational number rounds to under a rule: the nearer neighbour with a tie going
to the even one, or the next integer up. -/
def roundInt : Rounding → ℚ → ℤ
  | .halfEven, x =>
    if x - ⌊x⌋ < 1 / 2 then ⌊x⌋
    else if 1 / 2 < x - ⌊x⌋ then ⌊x⌋ + 1
    else if ⌊x⌋ % 2 = 0 then ⌊x⌋ else ⌊x⌋ + 1
  | .ceiling, x => ⌈x⌉

@[simp] theorem roundInt_intCast (mode : Rounding) (k : Int) : roundInt mode k = k := by
  cases mode <;> simp [roundInt]

@[simp] theorem roundInt_zero (mode : Rounding) : roundInt mode 0 = 0 := by
  simpa using roundInt_intCast mode 0

@[simp] theorem roundInt_natCast (mode : Rounding) (k : Nat) : roundInt mode k = k := by
  rw [← Int.cast_natCast, roundInt_intCast]

section HalfEven

variable {x : ℚ}

theorem roundInt_halfEven_of_lt (h : x - ⌊x⌋ < 1 / 2) : roundInt .halfEven x = ⌊x⌋ := by
  simp only [roundInt, if_pos h]

theorem roundInt_halfEven_of_gt (h : 1 / 2 < x - ⌊x⌋) : roundInt .halfEven x = ⌊x⌋ + 1 := by
  simp only [roundInt, if_neg (not_lt.2 h.le), if_pos h]

theorem roundInt_halfEven_of_tie (h : x - ⌊x⌋ = 1 / 2) :
    roundInt .halfEven x = if ⌊x⌋ % 2 = 0 then ⌊x⌋ else ⌊x⌋ + 1 := by
  simp only [roundInt, h, lt_irrefl, if_false]

/-- Half to even moves a number to its floor or one above. -/
theorem roundInt_halfEven_cases (x : ℚ) :
    roundInt .halfEven x = ⌊x⌋ ∨ roundInt .halfEven x = ⌊x⌋ + 1 := by
  simp only [roundInt]
  split_ifs <;> simp

/-- Rounding up from the floor needs a fraction of at least one half. -/
theorem half_le_of_roundInt_halfEven (h : roundInt .halfEven x = ⌊x⌋ + 1) : 1 / 2 ≤ x - ⌊x⌋ := by
  by_contra hlt
  rw [roundInt_halfEven_of_lt (not_le.1 hlt)] at h
  omega

/-- Half to even is symmetric: a number and its negation round to opposite integers. -/
theorem roundInt_halfEven_neg (x : ℚ) : roundInt .halfEven (-x) = -roundInt .halfEven x := by
  by_cases hx : ∃ k : Int, x = k
  · obtain ⟨k, rfl⟩ := hx
    rw [← Int.cast_neg, roundInt_intCast, roundInt_intCast]
  · -- off the integers the floor of `-x` is one below `-⌊x⌋`, and the fraction is reflected
    have hne : (⌊x⌋ : ℚ) ≠ x := fun h => hx ⟨⌊x⌋, h.symm⟩
    have hceil : ⌈x⌉ = ⌊x⌋ + 1 := by
      rw [Int.ceil_eq_iff]
      push_cast
      constructor
      · linarith [lt_of_le_of_ne (Int.floor_le x) hne]
      · linarith [Int.lt_floor_add_one x]
    have hfloor : ⌊-x⌋ = -⌊x⌋ - 1 := by
      rw [Int.floor_neg, hceil]
      ring
    have hfrac : -x - ⌊-x⌋ = 1 - (x - ⌊x⌋) := by
      rw [hfloor]
      push_cast
      ring
    rcases lt_trichotomy (x - ⌊x⌋) (1 / 2) with h | h | h
    · rw [roundInt_halfEven_of_gt (by rw [hfrac]; linarith), roundInt_halfEven_of_lt h, hfloor]
      ring
    · rw [roundInt_halfEven_of_tie (by rw [hfrac, h]; norm_num), roundInt_halfEven_of_tie h,
        hfloor]
      split_ifs <;> omega
    · rw [roundInt_halfEven_of_lt (by rw [hfrac]; linarith), roundInt_halfEven_of_gt h, hfloor]
      ring

end HalfEven

/-- **Both rounding rules are monotone.** -/
theorem roundInt_mono (mode : Rounding) {x y : ℚ} (h : x ≤ y) :
    roundInt mode x ≤ roundInt mode y := by
  cases mode with
  | ceiling => exact Int.ceil_mono h
  | halfEven =>
    rcases (Int.floor_mono h).lt_or_eq with hlt | heq
    · -- a whole number apart: `x` rounds to at most `⌊x⌋ + 1 ≤ ⌊y⌋`, and `y` to at least `⌊y⌋`
      rcases roundInt_halfEven_cases x with hx | hx <;>
        rcases roundInt_halfEven_cases y with hy | hy <;> omega
    · -- one floor: the fractions are ordered, and only a tie on both sides rounds alike
      have hfrac : x - ⌊x⌋ ≤ y - ⌊y⌋ := by rw [heq]; linarith
      rcases roundInt_halfEven_cases x with hx | hx
      · rcases roundInt_halfEven_cases y with hy | hy <;> omega
      · rcases (half_le_of_roundInt_halfEven hx).lt_or_eq with hgt | htie
        · rw [hx, roundInt_halfEven_of_gt (by linarith), heq]
        · -- `x` sits on a tie, so `y` lies on a tie or above it
          rcases (show 1 / 2 ≤ y - ⌊y⌋ by linarith).lt_or_eq with hy | hy
          · rw [hx, roundInt_halfEven_of_gt hy, heq]
          · rw [roundInt_halfEven_of_tie htie.symm, roundInt_halfEven_of_tie hy.symm, heq]

/-- A positive number below one half rounds to zero, or to one when rounding up; its negation
rounds to zero. -/
theorem roundInt_small (mode : Rounding) {y : ℚ} (h0 : 0 < y) (h1 : y < 1 / 2) :
    roundInt mode y = (if mode = .ceiling then 1 else 0) ∧ roundInt mode (-y) = 0 := by
  have hfloor : ⌊y⌋ = 0 := Int.floor_eq_zero_iff.2 ⟨h0.le, by linarith⟩
  cases mode with
  | halfEven =>
    refine ⟨?_, ?_⟩
    · rw [roundInt_halfEven_of_lt (by rw [hfloor]; simpa using h1), hfloor]
      rfl
    · rw [roundInt_halfEven_neg, roundInt_halfEven_of_lt (by rw [hfloor]; simpa using h1), hfloor]
      rfl
  | ceiling =>
    refine ⟨?_, ?_⟩
    · rw [roundInt, if_pos rfl, Int.ceil_eq_iff]
      constructor <;> push_cast <;> linarith
    · rw [roundInt, Int.ceil_neg, hfloor, neg_zero]

/-- A number `q + r / den` with `r < den` has floor `q`. -/
theorem floor_add_fraction {q r den : Nat} (hr : r < den) : ⌊(q + r / den : ℚ)⌋ = q := by
  have hden : (0 : ℚ) < den := by exact_mod_cast (show 0 < den by omega)
  have hlt : (r : ℚ) / den < 1 := by rw [div_lt_one hden]; exact_mod_cast hr
  have hge : (0 : ℚ) ≤ r / den := by positivity
  rw [Int.floor_eq_iff]
  push_cast
  constructor <;> linarith

/-- `roundQuotient` rounds the number `q + r / den` by the rule. -/
theorem roundQuotient_eq (mode : Rounding) {q r den : Nat} (hr : r < den) :
    (roundQuotient mode false q r den : Int) = roundInt mode (q + r / den) := by
  have hden : (0 : ℚ) < den := by exact_mod_cast (show 0 < den by omega)
  have hfloor := floor_add_fraction (q := q) hr
  have hfrac : (q + r / den : ℚ) - ⌊(q + r / den : ℚ)⌋ = r / den := by
    rw [hfloor]
    push_cast
    ring
  -- the fraction against one half is twice the remainder against the denominator
  have hhalf : ∀ {a b : Nat}, a < b ↔ (a : ℚ) < b := fun {_ _} => Nat.cast_lt.symm
  have hlt : (r : ℚ) / den < 1 / 2 ↔ 2 * r < den := by
    rw [div_lt_iff₀ hden, hhalf]
    push_cast
    constructor <;> intro h <;> linarith
  have hgt : 1 / 2 < (r : ℚ) / den ↔ den < 2 * r := by
    rw [lt_div_iff₀ hden, hhalf]
    push_cast
    constructor <;> intro h <;> linarith
  by_cases hr0 : r = 0
  · subst hr0
    simp [roundQuotient]
  cases mode with
  | halfEven =>
    simp only [roundQuotient, if_neg hr0]
    split_ifs with h1 h2 h3
    · rw [roundInt_halfEven_of_lt (by rw [hfrac]; exact hlt.2 h1), hfloor]
    · rw [roundInt_halfEven_of_gt (by rw [hfrac]; exact hgt.2 h2), hfloor]
      push_cast
      rfl
    all_goals
      -- a tie: the quotient is kept when even and raised when odd
      have htie : (q + r / den : ℚ) - ⌊(q + r / den : ℚ)⌋ = 1 / 2 := by
        have h2r : (2 * r : ℚ) = den := by exact_mod_cast (show 2 * r = den by omega)
        rw [hfrac, div_eq_iff hden.ne']
        linarith
      rw [roundInt_halfEven_of_tie htie, hfloor]
    · rw [if_pos (by omega)]
    · rw [if_neg (by omega)]
      push_cast
      rfl
  | ceiling =>
    simp only [roundQuotient, if_neg hr0, Bool.false_eq_true, if_false]
    rw [roundInt, eq_comm, Int.ceil_eq_iff]
    have hpos : (0 : ℚ) < r / den := by
      have : (0 : ℚ) < r := by exact_mod_cast Nat.pos_of_ne_zero hr0
      positivity
    have hlt1 : (r : ℚ) / den < 1 := by rw [div_lt_one hden]; exact_mod_cast hr
    push_cast
    constructor <;> linarith

/-- With the sign set, `roundQuotient` rounds the negative number `-(q + r / den)`. -/
theorem roundQuotient_neg_eq (mode : Rounding) {q r den : Nat} (hr : r < den) :
    -(roundQuotient mode true q r den : Int) = roundInt mode (-(q + r / den)) := by
  cases mode with
  | halfEven =>
    -- the sign plays no part in half to even, which is symmetric
    rw [roundInt_halfEven_neg, ← roundQuotient_eq .halfEven hr]
    rfl
  | ceiling =>
    -- rounding a negative number up drops its fraction
    rw [roundInt, Int.ceil_neg, floor_add_fraction hr]
    simp [roundQuotient]

/-- Dropping `drop` digits of `m` the way `roundTo` does (only one digit more than `m` has is
looked at) rounds the number `m / 10^drop`, or its negation. -/
theorem roundQuotient_dropped (mode : Rounding) (negative : Bool) {m drop : Nat} (hm : 0 < m) :
    let drop' := min drop (digitCount m + 1)
    let k := roundQuotient mode negative (if drop' < drop then 0 else m / Nat.pow 10 drop')
      (if drop' < drop then m else m % Nat.pow 10 drop')
      (if drop' < drop then 10 * Nat.pow 10 drop' else Nat.pow 10 drop')
    (if negative then -(k : Int) else k) =
      roundInt mode (if negative then -((m : ℚ) / 10 ^ drop) else (m : ℚ) / 10 ^ drop) := by
  intro drop' k
  have hpow : ∀ n, (0 : ℚ) < 10 ^ n := fun n => by positivity
  by_cases hcut : drop' < drop
  · -- more digits dropped than written: both numbers lie strictly between zero and one half
    have hk : k = roundQuotient mode negative 0 m (10 * 10 ^ (digitCount m + 1)) := by
      simp only [k, drop', show min drop (digitCount m + 1) = digitCount m + 1 by omega, Nat.pow_eq,
        if_pos (show digitCount m + 1 < drop by omega)]
    have hsmall : ∀ e, digitCount m + 2 ≤ e → 0 < (m : ℚ) / 10 ^ e ∧ (m : ℚ) / 10 ^ e < 1 / 2 := by
      intro e he
      have hlt : (m : ℚ) < 10 ^ digitCount m := by exact_mod_cast lt_pow_digitCount m
      have hle : (10 : ℚ) ^ (digitCount m + 2) ≤ 10 ^ e := pow_le_pow_right₀ (by norm_num) he
      refine ⟨by have : (0 : ℚ) < m := by exact_mod_cast hm
                 positivity, ?_⟩
      rw [div_lt_iff₀ (hpow e)]
      calc (m : ℚ) < 10 ^ digitCount m := hlt
        _ = 10 ^ (digitCount m + 2) / 100 := by rw [pow_add]; norm_num
        _ ≤ 10 ^ e / 100 := by gcongr
        _ ≤ 1 / 2 * 10 ^ e := by linarith [hpow e]
    have hwritten := hsmall (digitCount m + 2) le_rfl
    have htrue := hsmall drop (by omega)
    have hden : (10 : ℚ) * 10 ^ (digitCount m + 1) = 10 ^ (digitCount m + 2) := by ring
    rw [hk]
    cases negative with
    | false =>
      simp only [Bool.false_eq_true, if_false]
      rw [roundQuotient_eq mode (by have := lt_pow_digitCount m; rw [pow_succ] at *; omega)]
      push_cast
      rw [zero_add, hden, (roundInt_small mode hwritten.1 hwritten.2).1,
        (roundInt_small mode htrue.1 htrue.2).1]
    | true =>
      simp only [if_true]
      rw [roundQuotient_neg_eq mode (by have := lt_pow_digitCount m; rw [pow_succ] at *; omega)]
      push_cast
      rw [zero_add, hden, (roundInt_small mode hwritten.1 hwritten.2).2,
        (roundInt_small mode htrue.1 htrue.2).2]
  · -- the digits kept are the quotient, the digits dropped the remainder
    have hdrop : drop' = drop := by omega
    have hk : k = roundQuotient mode negative (m / 10 ^ drop) (m % 10 ^ drop) (10 ^ drop) := by
      simp only [k, hdrop, Nat.pow_eq, lt_irrefl, if_false]
    have hsplit : (m : ℚ) / 10 ^ drop = ((m / 10 ^ drop : Nat) : ℚ) +
        ((m % 10 ^ drop : Nat) : ℚ) / ((10 ^ drop : Nat) : ℚ) := by
      have h : ((10 ^ drop * (m / 10 ^ drop) + m % 10 ^ drop : Nat) : ℚ) = m := by
        exact_mod_cast Nat.div_add_mod m (10 ^ drop)
      push_cast at h ⊢
      rw [← h]
      field_simp
    have hr : m % 10 ^ drop < 10 ^ drop := Nat.mod_lt _ (by positivity)
    rw [hk, hsplit]
    cases negative with
    | false => exact roundQuotient_eq mode hr
    | true => exact roundQuotient_neg_eq mode hr

/-- **Rounding a decimal to scale `s` keeps the integer the rule picks** for the number times
`10^s`, at scale `s`. -/
theorem roundTo_eq (d : Decimal) (s : Int) (mode : Rounding) :
    d.roundTo s mode = ⟨roundInt mode (d.val * 10 ^ s), s⟩ := by
  by_cases hu : d.unscaled = 0
  · rw [roundTo, if_pos hu, val_eq_zero_iff.2 hu, zero_mul, roundInt_zero]
  by_cases hs : d.scale ≤ s
  · -- digits are appended: the number times `10^s` is whole
    have hwhole : d.val * 10 ^ s = ((d.unscaled * 10 ^ (s - d.scale).toNat : Int) : ℚ) := by
      rw [val, mul_assoc, ← zpow_add₀ (by norm_num), Int.cast_mul, Int.cast_pow, ← zpow_natCast,
        Int.toNat_of_nonneg (by omega)]
      push_cast
      ring_nf
    rw [roundTo, if_pos hs, if_neg hu, hwhole, roundInt_intCast]
    rfl
  · -- digits are dropped: the number times `10^s` is the digits over `10^drop`, with the sign
    have hval : d.val * 10 ^ s = if decide (d.unscaled < 0) then
        -((d.unscaled.natAbs : ℚ) / 10 ^ (d.scale - s).toNat)
        else (d.unscaled.natAbs : ℚ) / 10 ^ (d.scale - s).toNat := by
      rw [val, mul_assoc, ← zpow_add₀ (by norm_num),
        show -d.scale + s = -(((d.scale - s).toNat : Nat) : Int) by omega, zpow_neg, zpow_natCast]
      by_cases hneg : d.unscaled < 0
      · rw [decide_eq_true hneg, if_pos rfl, Nat.cast_natAbs, Int.cast_abs, abs_of_neg
          (Int.cast_lt_zero.2 hneg)]
        ring
      · rw [decide_eq_false hneg, if_neg (by simp), Nat.cast_natAbs, Int.cast_abs, abs_of_nonneg
          (Int.cast_nonneg (by omega))]
        ring
    rw [roundTo, if_neg hu, if_neg hs, hval,
      ← roundQuotient_dropped mode _ (Int.natAbs_pos.2 hu)]
    simp only [decide_eq_true_eq]

/-- The multiple of `10^(-s)` that rule `mode` picks for `x`. -/
def roundAt (mode : Rounding) (s : Int) (x : ℚ) : ℚ := roundInt mode (x * 10 ^ s) * 10 ^ (-s)

/-- A rounded decimal stands for the rounded number. -/
@[simp] theorem val_roundTo (d : Decimal) (s : Int) (mode : Rounding) :
    (d.roundTo s mode).val = roundAt mode s d.val := by
  rw [roundTo_eq, val_mk, roundAt]

theorem roundAt_mono (mode : Rounding) (s : Int) {x y : ℚ} (h : x ≤ y) :
    roundAt mode s x ≤ roundAt mode s y := by
  have hxy : x * 10 ^ s ≤ y * 10 ^ s := mul_le_mul_of_nonneg_right h (pow_scale_pos s).le
  have hround : (roundInt mode (x * 10 ^ s) : ℚ) ≤ roundInt mode (y * 10 ^ s) := by
    exact_mod_cast roundInt_mono mode hxy
  exact mul_le_mul_of_nonneg_right hround (pow_scale_pos _).le

/-- A number on the grid of `10^(-s)` is left as it is. -/
theorem roundAt_of_whole (mode : Rounding) {s : Int} {x : ℚ} {k : Int} (h : x * 10 ^ s = k) :
    roundAt mode s x = x := by
  rw [roundAt, h, roundInt_intCast, ← h, mul_assoc, ← zpow_add₀ (by norm_num), add_neg_cancel,
    zpow_zero, mul_one]

theorem roundAt_natCast (mode : Rounding) {s : Int} (hs : 0 ≤ s) (n : Nat) :
    roundAt mode s n = n :=
  roundAt_of_whole mode (k := n * 10 ^ s.toNat)
    (by push_cast; rw [← zpow_natCast, Int.toNat_of_nonneg hs])

theorem roundAt_nonneg (mode : Rounding) (s : Int) {x : ℚ} (hx : 0 ≤ x) : 0 ≤ roundAt mode s x :=
  (roundAt_of_whole mode (k := 0) (by simp)).symm.trans_le (roundAt_mono mode s hx)

/-! ## Long division -/

/-- One more digit of a long division by `den`, as `longDivide` writes it: the quotient, the
remainder and the digits added so far; nothing changes once the remainder is zero. -/
def divDigit (den : Nat) (acc : Nat × Nat × Nat) : Nat × Nat × Nat :=
  if acc.2.1 = 0 then acc else (acc.1 * 10 + acc.2.1 * 10 / den, acc.2.1 * 10 % den, acc.2.2 + 1)

/-- A division that has come out even stays as it is. -/
theorem foldl_divDigit_of_zero (den : Nat) (xs : List Nat) {init : Nat × Nat × Nat}
    (h : init.2.1 = 0) : xs.foldl (fun acc _ => divDigit den acc) init = init := by
  induction xs with
  | nil => rfl
  | cons x xs ih => rw [List.foldl_cons, divDigit, if_pos h, ih]

/-- **The long division loop.** Each digit added multiplies the dividend by ten: the quotient
and remainder reached stand for the start times `10^(digits added)`, the remainder stays below
`den`, and a digit is added in every round until the remainder is zero. -/
theorem foldl_divDigit {den : Nat} (hden : 0 < den) (xs : List Nat) (init : Nat × Nat × Nat)
    (hr : init.2.1 < den) :
    let res := xs.foldl (fun acc _ => divDigit den acc) init
    res.1 * den + res.2.1 = (init.1 * den + init.2.1) * 10 ^ (res.2.2 - init.2.2) ∧
      res.2.1 < den ∧ init.2.2 ≤ res.2.2 ∧ res.2.2 ≤ init.2.2 + xs.length ∧
      (res.2.1 ≠ 0 → res.2.2 = init.2.2 + xs.length) := by
  induction xs generalizing init with
  | nil => simp [hr]
  | cons x xs ih =>
    obtain ⟨q, r, a⟩ := init
    by_cases h0 : r = 0
    · subst h0
      rw [List.foldl_cons, divDigit, if_pos rfl, foldl_divDigit_of_zero den xs rfl]
      simp [hden]
    · -- one digit: the remainder times ten is divided once more
      have hstep : divDigit den (q, r, a) = (q * 10 + r * 10 / den, r * 10 % den, a + 1) := by
        rw [divDigit, if_neg h0]
      obtain ⟨hsum, hlt, hge, hle, hfull⟩ := ih (q * 10 + r * 10 / den, r * 10 % den, a + 1)
        (Nat.mod_lt _ hden)
      simp only [List.foldl_cons, hstep] at hsum hlt hge hle hfull ⊢
      obtain ⟨k, hk⟩ := Nat.exists_eq_add_of_le hge
      have hdigit : (q * 10 + r * 10 / den) * den + r * 10 % den = (q * den + r) * 10 := by
        have := Nat.div_add_mod' (r * 10) den
        nlinarith
      refine ⟨?_, hlt, by omega, by simp only [List.length_cons]; omega,
        fun h => by simp only [hfull h, List.length_cons]; omega⟩
      rw [hsum, hdigit, hk, show a + 1 + k - (a + 1) = k by omega,
        show a + 1 + k - a = k + 1 by omega, pow_succ]
      ring

/-- Rounding half up a number `q + r / den` with `r < den`. -/
theorem round_add_fraction {q r den : Nat} (hr : r < den) :
    round ((q : ℚ) + r / den) = q + (if den ≤ 2 * r then 1 else 0) := by
  have hden : (0 : ℚ) < den := by exact_mod_cast (show 0 < den by omega)
  have hlt1 : (r : ℚ) / den < 1 := by rw [div_lt_one hden]; exact_mod_cast hr
  have hge : (0 : ℚ) ≤ r / den := by positivity
  rw [round_eq, Int.floor_eq_iff]
  split_ifs with h
  · have : (1 : ℚ) / 2 ≤ r / den := by
      rw [le_div_iff₀ hden]
      have : (den : ℚ) ≤ 2 * r := by exact_mod_cast h
      linarith
    push_cast
    constructor <;> linarith
  · have : (r : ℚ) / den < 1 / 2 := by
      rw [div_lt_iff₀ hden]
      have : (2 * r : ℚ) < den := by exact_mod_cast (not_le.1 h)
      linarith
    push_cast
    constructor <;> linarith

/-- A number whose multiple by `10^G` is whole is left alone by rounding at `G` places. -/
theorem round_mul_pow_div_of_whole {x : ℚ} {G : Nat} {k : Int} (h : x * 10 ^ G = k) :
    round (x * 10 ^ G) / 10 ^ G = x := by
  rw [h, round_intCast, ← h, mul_div_cancel_right₀ _ (by positivity)]

/-- **Long division keeps the quotient rounded half up** at `quotientPrecision` digits less the
digits of its whole part, whether or not it comes out even before that. -/
theorem longDivide_eq {N den : Nat} (hden : 0 < den) :
    ((longDivide N den).1 : ℚ) / 10 ^ (longDivide N den).2 =
      round ((N : ℚ) / den * 10 ^ (quotientPrecision - digitCount (N / den))) /
        10 ^ (quotientPrecision - digitCount (N / den)) := by
  set G := quotientPrecision - digitCount (N / den)
  have hdenQ : (0 : ℚ) < den := by exact_mod_cast hden
  unfold longDivide
  dsimp only
  split
  · -- the division is even at once
    rename_i hr0
    have hwhole : (N : ℚ) / den = ((N / den : Nat) : ℚ) := by
      rw [Nat.cast_div (Nat.dvd_of_mod_eq_zero hr0) hdenQ.ne']
    rw [round_mul_pow_div_of_whole (k := ((N / den * 10 ^ G : Nat) : Int))
      (by rw [hwhole, Int.cast_natCast, Nat.cast_mul, Nat.cast_pow, Nat.cast_ofNat]), hwhole,
      pow_zero, div_one]
  · rename_i hr0
    generalize hres : List.foldl _ (N / den, N % den, 0) (List.range G) = res
    obtain ⟨hsum, hlt, -, hle, hfull⟩ := foldl_divDigit hden (List.range G) (N / den, N % den, 0)
      (Nat.mod_lt _ hden)
    simp only [divDigit] at hsum hlt hle hfull
    rw [hres] at hsum hlt hle hfull
    simp only [List.length_range, zero_add, Nat.sub_zero, Nat.div_add_mod'] at hsum hle hfull
    obtain ⟨q, r, a⟩ := res
    simp only at hsum hlt hle hfull ⊢
    by_cases hr : r = 0
    · -- it came out even after `a` digits: the quotient is exact
      subst hr
      have hq : (q : ℚ) * den = N * 10 ^ a := by exact_mod_cast (by simpa using hsum)
      have hN : (N : ℚ) / den = q / 10 ^ a := by
        rw [div_eq_div_iff hdenQ.ne' (by positivity)]
        linarith
      have hwhole : (N : ℚ) / den * 10 ^ G = ((q * 10 ^ (G - a) : Nat) : Int) := by
        rw [Int.cast_natCast, Nat.cast_mul, Nat.cast_pow, Nat.cast_ofNat, hN,
          show G = a + (G - a) by omega, pow_add, Nat.add_sub_cancel_left]
        field_simp
      rw [if_neg (by simp), round_mul_pow_div_of_whole hwhole, hN]
    · -- digits were added up to the limit: the first digit dropped decides
      have ha : a = G := hfull hr
      subst ha
      have hx : (N : ℚ) / den * 10 ^ G = q + r / den := by
        have hq : (q : ℚ) * den + r = N * 10 ^ G := by exact_mod_cast hsum
        field_simp
        linarith
      have hup : (5 ≤ r * 10 / den) ↔ den ≤ 2 * r := by
        rw [Nat.le_div_iff_mul_le hden]
        omega
      rw [hx, round_add_fraction hlt]
      by_cases h2 : den ≤ 2 * r
      · rw [if_pos ⟨hr, hup.2 h2⟩, if_pos h2]
        push_cast
        rfl
      · rw [if_neg (fun h => h2 (hup.1 h.2)), if_neg h2]
        push_cast
        rw [add_zero]

/-! ## Quotients -/

/-- The places after the point that a positive quotient `x` keeps: enough for a hundred
significant digits, and none once its whole part alone has a hundred digits or more. -/
def keptPlaces (x : ℚ) : Nat := ((quotientPrecision : Int) - 1 - Int.log 10 x).toNat

/-- A positive quotient as division keeps it: rounded half up at `keptPlaces x` places. -/
def keptQuotient (x : ℚ) : ℚ := round (x * 10 ^ keptPlaces x) / 10 ^ keptPlaces x

/-- A quotient already on its grid is kept as it is. -/
theorem keptQuotient_of_whole {x : ℚ} {k : Int} (h : x * 10 ^ keptPlaces x = k) :
    keptQuotient x = x :=
  round_mul_pow_div_of_whole h

@[simp] theorem keptQuotient_natCast (n : Nat) : keptQuotient n = n :=
  keptQuotient_of_whole (k := ((n * 10 ^ keptPlaces n : Nat) : Int)) (by push_cast; ring)

/-- The power of ten at or below a positive number. -/
theorem log_eq_of_bounds {x : ℚ} {k : Int} (hlo : 10 ^ k ≤ x) (hhi : x < 10 ^ (k + 1)) :
    Int.log 10 x = k := by
  have hx : 0 < x := lt_of_lt_of_le (pow_scale_pos k) hlo
  have h1 := (Int.zpow_le_iff_le_log (b := 10) (by norm_num) hx).1 (by exact_mod_cast hlo)
  have h2 := (Int.lt_zpow_iff_log_lt (b := 10) (by norm_num) hx).1 (by exact_mod_cast hhi)
  omega

theorem digitCount_le_of_lt {a b : Nat} (h : a < b) : digitCount a ≤ digitCount b :=
  (Nat.length_toDigits_le_iff (by norm_num) Nat.length_toDigits_pos).2
    (lt_trans h (lt_pow_digitCount b))

/-- The shift that brings a smaller numerator to at least the denominator brings it below ten
times the denominator. -/
theorem shiftToReach_bounds {num den : Nat} (h0 : 0 < num) (hlt : num < den) :
    den ≤ num * 10 ^ shiftToReach num den ∧ num * 10 ^ shiftToReach num den < 10 * den := by
  unfold shiftToReach
  simp only [Nat.pow_eq]
  have hn := pow_digitCount_le h0
  have hd := pow_digitCount_le (show 0 < den by omega)
  have hn' := lt_pow_digitCount num
  have hle := digitCount_le_of_lt hlt
  have hpos : 0 < digitCount num := Nat.length_toDigits_pos
  set k := digitCount den - digitCount num
  -- padded to the denominator's length, the numerator has the denominator's leading place
  have hlo : 10 ^ (digitCount den - 1) ≤ num * 10 ^ k := by
    calc 10 ^ (digitCount den - 1) = 10 ^ (digitCount num - 1) * 10 ^ k := by
          rw [← pow_add]; congr 1; omega
      _ ≤ num * 10 ^ k := Nat.mul_le_mul_right _ hn
  have hhi : num * 10 ^ k < 10 ^ digitCount den := by
    calc num * 10 ^ k < 10 ^ digitCount num * 10 ^ k :=
          Nat.mul_lt_mul_of_pos_right hn' (by positivity)
      _ = 10 ^ digitCount den := by rw [← pow_add]; congr 1; omega
  have hten : 10 ^ digitCount den = 10 * 10 ^ (digitCount den - 1) := by
    rw [← pow_succ']; congr 1; omega
  have hd' := lt_pow_digitCount den
  split_ifs with h
  · rw [pow_succ, ← Nat.mul_assoc]
    constructor <;> omega
  · constructor <;> omega

/-- The decimal logarithm of a positive quotient, read off the digits of the whole part of the
quotient with its numerator shifted by `shift` places: that whole part has `D` digits, so the
shifted quotient lies between `10^(D-1)` and `10^D`. -/
theorem log_shifted_quotient {P e shift : Nat} (he : 0 < e) (hreach : e ≤ P * 10 ^ shift) :
    Int.log 10 ((P : ℚ) / e) = (digitCount (P * 10 ^ shift / e) : Int) - 1 - shift := by
  have heQ : (0 : ℚ) < e := by exact_mod_cast he
  set N := P * 10 ^ shift with hNdef
  have hNQ : (N : ℚ) / e = P / e * 10 ^ shift := by
    simp only [hNdef, Nat.cast_mul, Nat.cast_pow, Nat.cast_ofNat]
    ring
  -- the quotient `N / e` has the digits of its whole part before the point
  have hn₀ : 0 < N / e := Nat.div_pos hreach he
  have hD := pow_digitCount_le hn₀
  have hD' := lt_pow_digitCount (N / e)
  have hDpos : 0 < digitCount (N / e) := Nat.length_toDigits_pos
  have hlo : ((N / e : Nat) : ℚ) ≤ N / e := by
    rw [le_div_iff₀ heQ]
    exact_mod_cast Nat.div_mul_le_self N e
  have hhi : (N : ℚ) / e < (N / e : Nat) + 1 := by
    rw [div_lt_iff₀ heQ]
    have h1 : N < N / e * e + e := Nat.lt_div_mul_add he
    have : N < (N / e + 1) * e := by rw [add_mul, one_mul]; exact h1
    exact_mod_cast this
  apply log_eq_of_bounds
  · calc (10 : ℚ) ^ ((digitCount (N / e) : Int) - 1 - shift)
        = 10 ^ ((digitCount (N / e) - 1 : Nat) : Int) / 10 ^ shift := by
          rw [zpow_sub₀ (by norm_num), zpow_natCast]
          congr 2
          omega
      _ ≤ (N : ℚ) / e / 10 ^ shift := by
          gcongr
          calc (10 : ℚ) ^ ((digitCount (N / e) - 1 : Nat) : Int) =
                ((10 ^ (digitCount (N / e) - 1) : Nat) : ℚ) := by
                push_cast; rw [zpow_natCast]
            _ ≤ ((N / e : Nat) : ℚ) := by exact_mod_cast hD
            _ ≤ (N : ℚ) / e := hlo
      _ = (P : ℚ) / e := by rw [hNQ, mul_div_cancel_right₀ _ (by positivity)]
  · calc (P : ℚ) / e = (N : ℚ) / e / 10 ^ shift := by
          rw [hNQ, mul_div_cancel_right₀ _ (by positivity)]
      _ < 10 ^ (digitCount (N / e) : Int) / 10 ^ shift := by
          gcongr
          calc (N : ℚ) / e < (N / e : Nat) + 1 := hhi
            _ ≤ ((10 ^ digitCount (N / e) : Nat) : ℚ) := by
                exact_mod_cast Nat.succ_le_of_lt hD'
            _ = 10 ^ (digitCount (N / e) : Int) := by push_cast; rw [zpow_natCast]
      _ = 10 ^ ((digitCount (N / e) : Int) - 1 - shift + 1) := by
          rw [show (digitCount (N / e) : Int) - 1 - shift + 1 = (digitCount (N / e) : Int) - shift
            by ring, zpow_sub₀ (by norm_num), zpow_natCast, zpow_natCast]

/-- Shifted by `shift` places to reach the denominator, a positive numerator divided by long
division gives the kept quotient. -/
theorem val_shifted_quotient {P e shift : Nat} (he : 0 < e)
    (hreach : e ≤ P * 10 ^ shift) (hshift : shift = 0 ∨ P * 10 ^ shift < 10 * e) :
    (⟨((longDivide (P * Nat.pow 10 shift) e).1 : Int),
      0 + (shift : Int) + ((longDivide (P * Nat.pow 10 shift) e).2 : Int)⟩ : Decimal).val =
      keptQuotient (P / e) := by
  simp only [Nat.pow_eq]
  have hlog := log_shifted_quotient he hreach
  set N := P * 10 ^ shift with hNdef
  set G := quotientPrecision - digitCount (N / e)
  have hNQ : (N : ℚ) / e = P / e * 10 ^ shift := by
    simp only [hNdef, Nat.cast_mul, Nat.cast_pow, Nat.cast_ofNat]
    ring
  have hplaces : keptPlaces ((P : ℚ) / e) = shift + G := by
    have hDpos : 0 < digitCount (N / e) := Nat.length_toDigits_pos
    rw [keptPlaces, hlog]
    simp only [G, show quotientPrecision = 100 from rfl]
    rcases hshift with h0 | hsmall
    · subst h0
      omega
    · -- a numerator shifted below ten denominators has a one-digit quotient
      have hone : digitCount (N / e) = 1 := by
        have : N / e < 10 := Nat.div_lt_of_lt_mul (by linarith)
        have hD := pow_digitCount_le (Nat.div_pos hreach he)
        by_contra hne
        have : 10 ^ 1 ≤ 10 ^ (digitCount (N / e) - 1) := Nat.pow_le_pow_right (by norm_num) (by omega)
        omega
      rw [hone]
      omega
  have hld := longDivide_eq (N := N) he
  rw [hNQ, mul_assoc, ← pow_add] at hld
  rw [val_mk, keptQuotient, hplaces, show -(0 + (shift : Int) + ((longDivide N e).2 : Int)) =
    -((longDivide N e).2 : Int) + -(shift : Int) by ring, zpow_add₀ (by norm_num), zpow_neg,
    zpow_neg, zpow_natCast, zpow_natCast, Int.cast_natCast, ← mul_assoc, ← div_eq_mul_inv,
    ← div_eq_mul_inv, hld, div_div, ← pow_add, add_comm G shift]

/-- **The quotient of two positive integers is kept to a hundred significant digits**, rounded
half up at the first digit dropped; a quotient with more digits before the point keeps them
all. -/
theorem val_div_ofInt {P e : Nat} (hP : 0 < P) (he : 0 < e) :
    (ofInt P / ofInt e).val = keptQuotient (P / e) := by
  show (div (ofInt P) (ofInt e)).val = _
  have hPQ : (0 : ℚ) < P := by exact_mod_cast hP
  by_cases he1 : e = 1
  · -- dividing by one gives the dividend
    subst he1
    have hcmp : cmp (ofInt ((1 : Nat) : Int)) one = .eq := by
      rw [cmp_eq_compare, val_ofInt, val_one, compare_eq_iff_eq]
      simp
    rw [div, if_pos (Or.inr hcmp), val_ofInt, Nat.cast_one, div_one, Int.cast_natCast,
      keptQuotient_natCast]
  have hcmp : cmp (ofInt (e : Int)) one ≠ .eq := by
    rw [cmp_eq_compare, val_ofInt, val_one, ne_eq, compare_eq_iff_eq]
    exact_mod_cast he1
  have hne : ¬((ofInt (P : Int)).unscaled = 0 ∨ cmp (ofInt (e : Int)) one = .eq) := by
    simp only [ofInt, not_or]
    exact ⟨by omega, hcmp⟩
  by_cases hPe : P = e
  · -- equal digits give one
    subst hPe
    have hone : keptQuotient 1 = 1 := by simpa using keptQuotient_natCast 1
    rw [div, if_neg hne, if_pos rfl, val_mk, div_self hPQ.ne', hone]
    simp
  rw [div, if_neg hne, if_neg (by simp [ofInt]; omega)]
  dsimp only [ofInt, Int.natAbs_natCast]
  simp only [Nat.cast_nonneg, not_lt.2, decide_false, bne_self_eq_false, Bool.false_eq_true,
    if_false, sub_zero]
  -- the numerator is shifted only when it is below the denominator
  split
  · rename_i hlt
    have := shiftToReach_bounds hP hlt
    exact val_shifted_quotient he this.1 (Or.inr this.2)
  · exact val_shifted_quotient he (by simp; omega) (Or.inl rfl)

/-- Rounding half up is monotone. -/
theorem round_mono {x y : ℚ} (h : x ≤ y) : round x ≤ round y := by
  rw [round_eq, round_eq]
  exact Int.floor_mono (by linarith)

theorem keptQuotient_nonneg {x : ℚ} (hx : 0 ≤ x) : 0 ≤ keptQuotient x := by
  have hround : (0 : ℤ) ≤ round (x * 10 ^ keptPlaces x) :=
    (round_intCast 0).symm.trans_le
      (round_mono (by rw [Int.cast_zero]; exact mul_nonneg hx (by positivity)))
  exact div_nonneg (by exact_mod_cast hround) (by positivity)

/-- A power of ten on the grid of `keptPlaces x`, as an integer. -/
theorem pow_mul_pow_eq_int {j : Int} {p : Nat} (h : 0 ≤ j + p) :
    (10 : ℚ) ^ j * 10 ^ p = (((10 : Int) ^ (j + p).toNat : Int) : ℚ) := by
  rw [← zpow_natCast (10 : ℚ) p, ← zpow_add₀ (by norm_num), Int.cast_pow, ← zpow_natCast,
    Int.toNat_of_nonneg h, Int.cast_ofNat]

/-- A quotient at most a power of ten on its grid is kept at most that power. -/
theorem keptQuotient_le_pow {x : ℚ} {j : Int} (hx : x ≤ 10 ^ j) (hgrid : 0 ≤ j + keptPlaces x) :
    keptQuotient x ≤ 10 ^ j := by
  have hp : (0 : ℚ) < 10 ^ keptPlaces x := by positivity
  have hle : x * 10 ^ keptPlaces x ≤ (((10 : Int) ^ (j + keptPlaces x).toNat : Int) : ℚ) := by
    rw [← pow_mul_pow_eq_int hgrid]
    gcongr
  have hround : (round (x * 10 ^ keptPlaces x) : ℚ) ≤ 10 ^ j * 10 ^ keptPlaces x := by
    rw [pow_mul_pow_eq_int hgrid]
    exact_mod_cast (round_mono hle).trans_eq (round_intCast _)
  rw [keptQuotient, div_le_iff₀ hp]
  exact hround

/-- A quotient at least a power of ten on its grid is kept at least that power. -/
theorem pow_le_keptQuotient {x : ℚ} {j : Int} (hx : 10 ^ j ≤ x) (hgrid : 0 ≤ j + keptPlaces x) :
    10 ^ j ≤ keptQuotient x := by
  have hp : (0 : ℚ) < 10 ^ keptPlaces x := by positivity
  have hle : (((10 : Int) ^ (j + keptPlaces x).toNat : Int) : ℚ) ≤ x * 10 ^ keptPlaces x := by
    rw [← pow_mul_pow_eq_int hgrid]
    gcongr
  have hround : 10 ^ j * 10 ^ keptPlaces x ≤ (round (x * 10 ^ keptPlaces x) : ℚ) := by
    rw [pow_mul_pow_eq_int hgrid]
    exact_mod_cast (round_intCast _).symm.trans_le (round_mono hle)
  rw [keptQuotient, le_div_iff₀ hp]
  exact hround

/-- **Keeping a hundred digits is monotone.** Within one decade both quotients keep the same
places; across decades the power of ten between them lies on both grids. -/
theorem keptQuotient_mono {x y : ℚ} (hx : 0 < x) (h : x ≤ y) : keptQuotient x ≤ keptQuotient y := by
  have hy : 0 < y := lt_of_lt_of_le hx h
  have hlog := Int.log_mono_right (b := 10) hx h
  rcases hlog.lt_or_eq with hlt | heq
  · have hxlt : x < 10 ^ (Int.log 10 x + 1) := by
      exact_mod_cast Int.lt_zpow_succ_log_self (b := 10) (by norm_num) x
    have hyge : (10 : ℚ) ^ Int.log 10 y ≤ y := by
      exact_mod_cast Int.zpow_log_le_self (b := 10) (by norm_num) hy
    calc keptQuotient x ≤ 10 ^ (Int.log 10 x + 1) :=
          keptQuotient_le_pow hxlt.le (by simp only [keptPlaces, show quotientPrecision = 100 from rfl]; omega)
      _ ≤ 10 ^ Int.log 10 y := zpow_le_zpow_right₀ (by norm_num) (by omega)
      _ ≤ keptQuotient y :=
          pow_le_keptQuotient hyge (by simp only [keptPlaces, show quotientPrecision = 100 from rfl]; omega)
  · -- one decade: the same places are kept
    have hplaces : keptPlaces x = keptPlaces y := by rw [keptPlaces, keptPlaces, heq]
    rw [keptQuotient, keptQuotient, hplaces]
    have hround : (round (x * 10 ^ keptPlaces y) : ℚ) ≤ round (y * 10 ^ keptPlaces y) := by
      exact_mod_cast round_mono (mul_le_mul_of_nonneg_right h (by positivity))
    exact div_le_div_of_nonneg_right hround (by positivity)

end WorkLedger.Decimal
