import WorkLedger.Proofs.DecimalArithmetic
import WorkLedger.Proofs.Validation

/-!
# The retarget rule

After block `n` the difficulty is retargeted when the number of the next block, `n + 1` in
64-bit words, is a multiple of the interval. The last number, `2^64 - 1`, is followed by zero, a
multiple of every interval, so the difficulty is retargeted after it whatever the interval
(`Retarget.difficulty_retargets_after_last_number`).

Retargeting looks back `interval` blocks, never before block zero, and scales the difficulty by
a rule on numbers, `Retarget.retargeted`: the planned seconds over the elapsed ones, kept as
division keeps them and rounded half to even at 40 places, times the difficulty, rounded half to
even at 20 places, and never below one (`Retarget.val_adjust`). The elapsed seconds are the
exact difference of the truncated seconds of the two timestamps, which 64-bit words hold
(`Retarget.elapsedSeconds_eq_words`).

`Retarget.retargeted_laws`: the rule gives at least one, falls as the interval takes longer and
rises with the difficulty; on a difficulty with at most twenty places it moves the way the
interval asks, up after a fast interval, down after a slow one and not at all after one on
time. `Retarget.next_follows_elapsed_time` puts it together.
-/

namespace WorkLedger.Retarget

open Decimal

/-! ## The boundary test -/

/-- The block after `n` is numbered `n + 1` in 64-bit words: zero after the last number. -/
theorem toNat_succ_mod (n interval : UInt64) :
    ((n + 1) % interval).toNat = (n.toNat + 1) % 2 ^ 64 % interval.toNat := by
  rw [UInt64.toNat_mod, UInt64.toNat_add]
  rfl

theorem next_of_not_boundary {p : ChainParams} {store : Store} {h : Header}
    {window : List Header}
    (hb : (h.blockNumber.toNat + 1) % 2 ^ 64 % p.retargetInterval.toNat ≠ 0) :
    next p store h window = .ok h.difficulty := by
  have hne : (h.blockNumber + 1) % p.retargetInterval ≠ 0 := by
    intro hzero
    apply hb
    rw [← toNat_succ_mod, hzero]
    rfl
  rw [next, if_pos hne]

theorem next_of_boundary {p : ChainParams} {store : Store} {h : Header} {window : List Header}
    (hb : (h.blockNumber.toNat + 1) % 2 ^ 64 % p.retargetInterval.toNat = 0) :
    next p store h window =
      (lookup store window (h.blockNumber - min h.blockNumber p.retargetInterval)).map
        fun earlier => adjust h.difficulty
          (p.retargetInterval.toNat * p.targetSecondsPerBlock.toNat)
          (elapsedSeconds h.timestamp earlier.timestamp) := by
  have hzero : (h.blockNumber + 1) % p.retargetInterval = 0 := by
    rw [← UInt64.toNat_inj, toNat_succ_mod, hb]
    rfl
  rw [next, if_neg (not_not.2 hzero)]
  cases lookup store window (h.blockNumber - min h.blockNumber p.retargetInterval) <;> rfl

/-! ## Elapsed seconds -/

/-- A truncated second of a timestamp is at most `2^63 / 1000` away from zero. -/
theorem natAbs_seconds_le (t : Int64) : (t.toInt.tdiv 1000).natAbs ≤ 2 ^ 63 / 1000 := by
  have hdiv : (t.toInt.tdiv 1000).natAbs = t.toInt.natAbs / 1000 := Int.natAbs_tdiv _ _
  have hlo := Int64.le_toInt t
  have hhi := Int64.toInt_lt t
  omega

theorem toInt_seconds (t : Int64) : (t / 1000).toInt = t.toInt.tdiv 1000 :=
  Int64.toInt_div_of_ne_right _ _ (by decide)

theorem elapsedSeconds_eq (later earlier : Int64) :
    elapsedSeconds later earlier = max 1 (later.toInt.tdiv 1000 - earlier.toInt.tdiv 1000) := by
  rw [elapsedSeconds, toInt_seconds, toInt_seconds]

/-- The difference of two truncated seconds never wraps: the elapsed seconds are what 64-bit
words compute. -/
theorem elapsedSeconds_eq_words (later earlier : Int64) :
    elapsedSeconds later earlier = max 1 (later / 1000 - earlier / 1000).toInt := by
  have hl := natAbs_seconds_le later
  have he := natAbs_seconds_le earlier
  rw [Int64.toInt_sub, toInt_seconds, toInt_seconds, elapsedSeconds_eq,
    Int.bmod_eq_of_le (by omega) (by omega)]

/-! ## The rule on numbers -/

/-- The retarget coefficient on numbers: the planned seconds over the elapsed ones, kept as
division keeps them and rounded half to even at `coefficientScale` places. -/
def coefficient (planned : Nat) (elapsed : Int) : ℚ :=
  roundAt .halfEven coefficientScale (keptQuotient ((planned : ℚ) / elapsed))

/-- The retarget rule on numbers: the difficulty times the coefficient, rounded half to even at
`difficultyScale` places and never below one. -/
def retargeted (d : ℚ) (planned : Nat) (elapsed : Int) : ℚ :=
  max 1 (roundAt .halfEven difficultyScale (d * coefficient planned elapsed))

/-- The retargeted difficulty stands for the rule on numbers. -/
theorem val_adjust (d : Decimal) {planned : Nat} {elapsed : Int} (hP : 0 < planned)
    (he : 0 < elapsed) :
    (adjust d planned elapsed).val = retargeted d.val planned elapsed := by
  obtain ⟨e, rfl⟩ := Int.eq_ofNat_of_zero_le he.le
  have hq := val_div_ofInt hP (by omega : 0 < e)
  simp only [adjust, val_maxRight, val_roundTo, val_mul, val_one, hq, retargeted, coefficient,
    Int.cast_natCast]
  rw [max_comm]

theorem coefficient_nonneg (planned : Nat) {e : Int} (he : 0 ≤ e) : 0 ≤ coefficient planned e :=
  roundAt_nonneg _ _ (keptQuotient_nonneg (div_nonneg (Nat.cast_nonneg _) (Int.cast_nonneg he)))

/-- A longer interval gives a smaller coefficient. -/
theorem coefficient_anti {planned : Nat} (hP : 0 < planned) {e₁ e₂ : Int} (h1 : 0 < e₁)
    (h : e₁ ≤ e₂) : coefficient planned e₂ ≤ coefficient planned e₁ := by
  have h1' : (0 : ℚ) < e₁ := by exact_mod_cast h1
  have h2' : (0 : ℚ) < e₂ := by exact_mod_cast h1.trans_le h
  have hq : (planned : ℚ) / e₂ ≤ planned / e₁ :=
    div_le_div_of_nonneg_left (Nat.cast_nonneg _) h1' (by exact_mod_cast h)
  exact roundAt_mono _ _ (keptQuotient_mono (div_pos (by exact_mod_cast hP) h2') hq)

/-- An interval that took at most the planned time gives a coefficient of at least one. -/
theorem one_le_coefficient {planned : Nat} {e : Int} (he : 0 < e) (h : e ≤ planned) :
    1 ≤ coefficient planned e := by
  have he' : (0 : ℚ) < e := by exact_mod_cast he
  have hq : ((1 : Nat) : ℚ) ≤ planned / e := by
    rw [Nat.cast_one, one_le_div he']
    exact_mod_cast h
  have hkept := keptQuotient_mono (by norm_num) hq
  rw [keptQuotient_natCast] at hkept
  calc (1 : ℚ) = roundAt .halfEven coefficientScale ((1 : Nat) : ℚ) := by
        rw [roundAt_natCast _ (by decide), Nat.cast_one]
    _ ≤ coefficient planned e := roundAt_mono _ _ hkept

/-- An interval that took at least the planned time gives a coefficient of at most one. -/
theorem coefficient_le_one {planned : Nat} (hP : 0 < planned) {e : Int} (h : planned ≤ e) :
    coefficient planned e ≤ 1 := by
  have he' : (0 : ℚ) < e := by exact_mod_cast (show (0 : Int) < e by omega)
  have hq : (planned : ℚ) / e ≤ ((1 : Nat) : ℚ) := by
    rw [Nat.cast_one, div_le_one he']
    exact_mod_cast h
  have hkept := keptQuotient_mono (div_pos (by exact_mod_cast hP) he') hq
  rw [keptQuotient_natCast] at hkept
  calc coefficient planned e ≤ roundAt .halfEven coefficientScale ((1 : Nat) : ℚ) :=
        roundAt_mono _ _ hkept
    _ = 1 := by rw [roundAt_natCast _ (by decide), Nat.cast_one]

/-- The laws of the retarget rule for an interval planned to take `planned` seconds. -/
structure RuleLaws (planned : Nat) : Prop where
  one_le : ∀ (d : ℚ) (e : Int), 1 ≤ retargeted d planned e
  anti_elapsed : ∀ (d : ℚ) (e₁ e₂ : Int), 0 ≤ d → 0 < e₁ → e₁ ≤ e₂ →
    retargeted d planned e₂ ≤ retargeted d planned e₁
  mono_difficulty : ∀ (d₁ d₂ : ℚ) (e : Int), 0 ≤ e → d₁ ≤ d₂ →
    retargeted d₁ planned e ≤ retargeted d₂ planned e
  up_when_fast : ∀ (d : ℚ) (k e : Int), d * 10 ^ difficultyScale = k → 1 ≤ d → 0 < e →
    e ≤ planned → d ≤ retargeted d planned e
  down_when_slow : ∀ (d : ℚ) (k e : Int), d * 10 ^ difficultyScale = k → 1 ≤ d →
    planned ≤ e → retargeted d planned e ≤ d
  same_on_time : ∀ (d : ℚ) (k : Int), d * 10 ^ difficultyScale = k → 1 ≤ d →
    retargeted d planned planned = d

section Laws

variable {planned : Nat} {d : ℚ} {k : Int}

theorem le_retargeted_of_fast (hgrid : d * 10 ^ difficultyScale = k) (hd : 0 ≤ d) {e : Int}
    (he : 0 < e) (h : e ≤ planned) : d ≤ retargeted d planned e :=
  calc d = roundAt .halfEven difficultyScale d := (roundAt_of_whole _ hgrid).symm
    _ ≤ roundAt .halfEven difficultyScale (d * coefficient planned e) :=
        roundAt_mono _ _ (le_mul_of_one_le_right hd (one_le_coefficient he h))
    _ ≤ retargeted d planned e := le_max_right _ _

theorem retargeted_le_of_slow (hgrid : d * 10 ^ difficultyScale = k) (hd : 1 ≤ d)
    (hP : 0 < planned) {e : Int} (h : planned ≤ e) : retargeted d planned e ≤ d := by
  have hround : roundAt .halfEven difficultyScale (d * coefficient planned e) ≤ d :=
    calc roundAt .halfEven difficultyScale (d * coefficient planned e)
        ≤ roundAt .halfEven difficultyScale d :=
          roundAt_mono _ _ (mul_le_of_le_one_right (by linarith) (coefficient_le_one hP h))
      _ = d := roundAt_of_whole _ hgrid
  exact max_le hd hround

theorem retargeted_laws (hP : 0 < planned) : RuleLaws planned where
  one_le _ _ := le_max_left _ _
  anti_elapsed _ _ _ hd h1 h :=
    max_le_max_left 1 (roundAt_mono _ _ (mul_le_mul_of_nonneg_left (coefficient_anti hP h1 h) hd))
  mono_difficulty _ _ _ he h :=
    max_le_max_left 1 (roundAt_mono _ _ (mul_le_mul_of_nonneg_right h (coefficient_nonneg _ he)))
  up_when_fast _ _ _ hgrid hd he h := le_retargeted_of_fast hgrid (by linarith) he h
  down_when_slow _ _ _ hgrid hd h := retargeted_le_of_slow hgrid hd hP h
  same_on_time _ _ hgrid hd := le_antisymm (retargeted_le_of_slow hgrid hd hP le_rfl)
    (le_retargeted_of_fast hgrid (by linarith) (by exact_mod_cast hP) le_rfl)

end Laws

/-! ## The difficulty of the next block -/

/-- **Retargeting follows the elapsed time.** Off a boundary, with the next block numbered in
64-bit words, the difficulty stays; on one it becomes the rule on numbers applied to the
difficulty and the exact elapsed seconds since the header looked back to, a header that must
be found. The rule keeps its laws for every positive interval and block time. -/
theorem next_follows_elapsed_time (p : ChainParams) (store : Store) (h : Header)
    (window : List Header) (hR : 0 < p.retargetInterval.toNat)
    (hT : 0 < p.targetSecondsPerBlock.toNat) :
    ((h.blockNumber.toNat + 1) % 2 ^ 64 % p.retargetInterval.toNat ≠ 0 →
      next p store h window = .ok h.difficulty) ∧
    ((h.blockNumber.toNat + 1) % 2 ^ 64 % p.retargetInterval.toNat = 0 →
      (next p store h window).map Decimal.val =
        (lookup store window (h.blockNumber - min h.blockNumber p.retargetInterval)).map
          fun earlier => retargeted h.difficulty.val
            (p.retargetInterval.toNat * p.targetSecondsPerBlock.toNat)
            (max 1 (h.timestamp.toInt.tdiv 1000 - earlier.timestamp.toInt.tdiv 1000))) ∧
    (h.blockNumber - min h.blockNumber p.retargetInterval).toNat =
      h.blockNumber.toNat - min h.blockNumber.toNat p.retargetInterval.toNat ∧
    (∀ later earlier : Int64,
      elapsedSeconds later earlier = max 1 (later / 1000 - earlier / 1000).toInt) ∧
    RuleLaws (p.retargetInterval.toNat * p.targetSecondsPerBlock.toNat) := by
  have hP : 0 < p.retargetInterval.toNat * p.targetSecondsPerBlock.toNat := Nat.mul_pos hR hT
  refine ⟨next_of_not_boundary, fun hb => ?_, UInt64.toNat_sub_min _ _, elapsedSeconds_eq_words,
    retargeted_laws hP⟩
  rw [next_of_boundary hb]
  cases lookup store window (h.blockNumber - min h.blockNumber p.retargetInterval) with
  | error e => rfl
  | ok earlier =>
    show Except.ok _ = Except.ok _
    rw [val_adjust _ hP (by rw [elapsedSeconds]; omega), elapsedSeconds_eq]

/-- Three-block intervals of a minute a block. -/
def intervalThree : ChainParams :=
  { ChainParams.testing with retargetInterval := 3, targetSecondsPerBlock := 60 }

/-- A header with the last block number. -/
def lastHeader : Header :=
  ⟨⟨1, "tessera-test", 18446744073709551615, Digest.zero, Digest.zero, 9000, ⟨250, 2⟩, 0, ""⟩,
    Digest.zero⟩

/-- The header three numbers before it, fourteen seconds earlier. -/
def earlierHeader : Header :=
  ⟨⟨1, "tessera-test", 18446744073709551612, Digest.zero, Digest.zero, -5000, Decimal.one, 0, ""⟩,
    Digest.zero⟩

theorem next_follows_elapsed_time_after_last_number :
    0 < intervalThree.retargetInterval.toNat ∧ 0 < intervalThree.targetSecondsPerBlock.toNat ∧
    ((lastHeader.blockNumber.toNat + 1) % 2 ^ 64 % intervalThree.retargetInterval.toNat ≠ 0 →
      next intervalThree Store.empty lastHeader [earlierHeader] = .ok lastHeader.difficulty) ∧
    ((lastHeader.blockNumber.toNat + 1) % 2 ^ 64 % intervalThree.retargetInterval.toNat = 0 →
      (next intervalThree Store.empty lastHeader [earlierHeader]).map Decimal.val =
        (lookup Store.empty [earlierHeader]
            (lastHeader.blockNumber - min lastHeader.blockNumber intervalThree.retargetInterval)).map
          fun earlier => retargeted lastHeader.difficulty.val
            (intervalThree.retargetInterval.toNat * intervalThree.targetSecondsPerBlock.toNat)
            (max 1 (lastHeader.timestamp.toInt.tdiv 1000 - earlier.timestamp.toInt.tdiv 1000))) ∧
    (lastHeader.blockNumber - min lastHeader.blockNumber intervalThree.retargetInterval).toNat =
      lastHeader.blockNumber.toNat -
        min lastHeader.blockNumber.toNat intervalThree.retargetInterval.toNat ∧
    (∀ later earlier : Int64,
      elapsedSeconds later earlier = max 1 (later / 1000 - earlier / 1000).toInt) ∧
    RuleLaws (intervalThree.retargetInterval.toNat * intervalThree.targetSecondsPerBlock.toNat) :=
  ⟨by decide, by decide,
    next_follows_elapsed_time intervalThree Store.empty lastHeader [earlierHeader]
      (by decide) (by decide)⟩

set_option maxRecDepth 8000 in
/-- After the last number the difficulty is retargeted, although `2^64` is no multiple of three:
the next block is numbered zero. -/
theorem difficulty_retargets_after_last_number :
    (lastHeader.blockNumber.toNat + 1) % intervalThree.retargetInterval.toNat ≠ 0 ∧
      next intervalThree Store.empty lastHeader [earlierHeader] =
        .ok ⟨3214285714285714285714, 20⟩ := by
  refine ⟨by decide, ?_⟩
  have hnext : next intervalThree Store.empty lastHeader [earlierHeader] =
      .ok (adjust ⟨250, 2⟩ 180 14) := by
    rfl
  have hunscaled : (adjust ⟨250, 2⟩ 180 14).unscaled = 3214285714285714285714 := by decide
  have hscale : (adjust ⟨250, 2⟩ 180 14).scale = 20 := by decide
  rw [hnext, ← hunscaled, ← hscale]

end WorkLedger.Retarget
