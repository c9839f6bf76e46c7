import WorkLedger.Proofs.BlockIdentity

/-!
# The tolerated clock skew

The clock rule is the validator's last rule: a block that passes every other rule is refused
exactly when its timestamp lies further from the local time than the tolerated skew
(`Validator.check_with_clock_of_pass`), and the other rules do not read that setting
(`Validator.check_without_clock_skew`).

The tolerated skew is the configured seconds read as a signed 64-bit word, times a thousand,
held within that word's range, and taken without its sign (`ChainParams.maxTimestampSkewMs`).
Below `2^63` seconds this is the configured skew in milliseconds, `min (1000 · secs) (2^63 - 1)`
(`ChainParams.configuredSkewMs`), and it grows with the seconds. From `2^63` on, the seconds
wrap to the negative number `secs - 2^64`, so the skew falls back to `1000 · (2^64 - secs)`
(held at `2^63`): at the largest setting, `2^64 - 1` seconds, a second
(`ChainParams.natAbs_maxTimestampSkewMs`).
-/

namespace WorkLedger

/-- A 64-bit word read as a signed one: itself below `2^63`, and `2^64` less from there on. -/
theorem UInt64.toInt_toInt64 (x : UInt64) :
    x.toInt64.toInt = if x.toNat < 2 ^ 63 then (x.toNat : Int) else x.toNat - 2 ^ 64 := by
  have hx := x.toNat_lt
  have hof : x.toInt64 = Int64.ofNat x.toNat := by
    rw [← UInt64.toInt64_ofNat', UInt64.ofNat_toNat]
  have hsize : Int64.size = 2 ^ 64 := rfl
  rw [hof, Int64.toInt_ofNat', hsize, Int.bmod]
  split <;> split <;> omega

namespace ChainParams

/-- The configured skew in milliseconds: a thousand per second, held at the largest signed
64-bit number. -/
def configuredSkewMs (p : ChainParams) : Nat := min (1000 * p.maxTimestampSkewSecs.toNat) (2 ^ 63 - 1)

/-- **The skew the clock rule tolerates**, in milliseconds: the configured skew below `2^63`
seconds, and from there on a thousand times what the seconds lack of `2^64`, at most `2^63`. -/
theorem natAbs_maxTimestampSkewMs (p : ChainParams) :
    p.maxTimestampSkewMs.natAbs =
      if p.maxTimestampSkewSecs.toNat < 2 ^ 63 then p.configuredSkewMs
      else min (1000 * (2 ^ 64 - p.maxTimestampSkewSecs.toNat)) (2 ^ 63) := by
  have hx := p.maxTimestampSkewSecs.toNat_lt
  have hpow : Int.pow 2 63 = 2 ^ 63 := rfl
  have hsub : ((2 ^ 64 - p.maxTimestampSkewSecs.toNat : Nat) : Int) =
      2 ^ 64 - (p.maxTimestampSkewSecs.toNat : Int) := by
    rw [Nat.cast_sub hx.le]
    rfl
  simp only [maxTimestampSkewMs, UInt64.toInt_toInt64, hpow, configuredSkewMs]
  split <;> omega

/-- Below `2^63` seconds, more seconds tolerate at least as much skew. -/
theorem natAbs_maxTimestampSkewMs_mono {p q : ChainParams}
    (hle : p.maxTimestampSkewSecs ≤ q.maxTimestampSkewSecs)
    (hq : q.maxTimestampSkewSecs.toNat < 2 ^ 63) :
    p.maxTimestampSkewMs.natAbs ≤ q.maxTimestampSkewMs.natAbs := by
  have hle' := UInt64.le_iff_toNat_le.1 hle
  rw [natAbs_maxTimestampSkewMs, natAbs_maxTimestampSkewMs, if_pos hq, if_pos (by omega)]
  simp only [configuredSkewMs]
  omega

end ChainParams

namespace Validator

/-! ## The other rules do not read the skew -/

theorem headerMeets_skew (p : ChainParams) (secs : UInt64) (h : Header) :
    Target.headerMeets { p with maxTimestampSkewSecs := secs } h = Target.headerMeets p h := rfl

theorem next_skew (p : ChainParams) (secs : UInt64) (s : Store) (h : Header)
    (window : List Header) :
    Retarget.next { p with maxTimestampSkewSecs := secs } s h window =
      Retarget.next p s h window := rfl

theorem checkLinkage_skew (p : ChainParams) (secs : UInt64) (s : Store) (h : Header)
    (previous : Option Header) (window : List Header) :
    checkLinkage ⟨{ p with maxTimestampSkewSecs := secs }, s⟩ h previous window =
      checkLinkage ⟨p, s⟩ h previous window := by
  simp only [checkLinkage, next_skew]

/-- The rules other than the clock rule do not read the tolerated skew. -/
theorem check_without_clock_skew (p : ChainParams) (secs : UInt64) (s : Store) (b : Block)
    (previous : Option Header) (now : Int64) (window : List Header) :
    check ⟨{ p with maxTimestampSkewSecs := secs }, s⟩ b previous false now window =
      check ⟨p, s⟩ b previous false now window := by
  simp only [check, checkLinkage_skew, headerMeets_skew, Bool.false_eq_true, if_false]

/-! ## The clock rule comes last -/

/-- Checked with the clock, a block gets the verdict of the other rules, then the clock
rule's. -/
theorem check_with_clock (v : Validator) (b : Block) (previous : Option Header) (now : Int64)
    (window : List Header) :
    v.check b previous true now window =
      (v.check b previous false now window >>= fun _ =>
        require (skewMs now b.header.timestamp ≤ v.params.maxTimestampSkewMs.natAbs)
          (.timestamp b.header.timestamp (skewMs now b.header.timestamp))) := by
  by_cases hn : 0 < b.header.blockNumber <;>
    simp only [check, hn, if_true, if_false, Bool.false_eq_true, bind_assoc, pure_bind]

/-- **The clock rule.** A block that passes every other rule is refused with its timestamp and
its distance from the local time exactly when that distance exceeds the tolerated skew. -/
theorem check_with_clock_of_pass {v : Validator} {b : Block} {previous : Option Header}
    {now : Int64} {window : List Header} (hpass : v.check b previous false now window = .ok ()) :
    v.check b previous true now window =
      if skewMs now b.header.timestamp ≤ v.params.maxTimestampSkewMs.natAbs then .ok ()
      else .error (.timestamp b.header.timestamp (skewMs now b.header.timestamp)) := by
  rw [check_with_clock, hpass]
  simp only [require, decide_eq_true_eq]
  rfl

/-- Below `2^63` seconds, a block the clock rule accepts is accepted under any larger
setting. -/
theorem check_with_clock_mono {p : ChainParams} {s : Store} {b : Block} {previous : Option Header}
    {now : Int64} {window : List Header} {secs : UInt64} (hle : p.maxTimestampSkewSecs ≤ secs)
    (hsecs : secs.toNat < 2 ^ 63) (hok : check ⟨p, s⟩ b previous true now window = .ok ()) :
    check ⟨{ p with maxTimestampSkewSecs := secs }, s⟩ b previous true now window = .ok () := by
  rw [check_with_clock] at hok ⊢
  rw [check_without_clock_skew]
  cases hpass : check ⟨p, s⟩ b previous false now window with
  | error e => rw [hpass] at hok; cases hok
  | ok u =>
    rw [hpass] at hok
    have hwithin := (require_eq_ok_iff.1 hok)
    have hmono := ChainParams.natAbs_maxTimestampSkewMs_mono
      (q := { p with maxTimestampSkewSecs := secs }) hle hsecs
    show require _ _ = _
    rw [require_eq_ok_iff, decide_eq_true_eq]
    exact Nat.le_trans (of_decide_eq_true hwithin) hmono

end Validator

/-- **The clock rule follows the wrapped skew.** A block that passes every other rule is refused
by the clock rule, with its timestamp and its distance `|now - timestamp|` from the local time,
exactly when that distance exceeds the tolerated skew. Below `2^63` seconds the tolerated skew is
the configured skew `min (1000 · secs) (2^63 - 1)`, and a larger setting accepts every block a
smaller one does; from `2^63` seconds on it is `min (1000 · (2^64 - secs)) (2^63)`, so it shrinks
as the setting grows. -/
theorem clock_rule_tolerates_wrapped_skew (p : ChainParams) (s : Store) (b : Block)
    (previous : Option Header) (now : Int64) (window : List Header) :
    (Validator.check ⟨p, s⟩ b previous false now window = .ok () →
      Validator.check ⟨p, s⟩ b previous true now window =
        if Validator.skewMs now b.header.timestamp ≤ p.maxTimestampSkewMs.natAbs then .ok ()
        else .error (.timestamp b.header.timestamp (Validator.skewMs now b.header.timestamp))) ∧
    p.maxTimestampSkewMs.natAbs =
      (if p.maxTimestampSkewSecs.toNat < 2 ^ 63 then p.configuredSkewMs
       else min (1000 * (2 ^ 64 - p.maxTimestampSkewSecs.toNat)) (2 ^ 63)) ∧
    (∀ secs : UInt64, p.maxTimestampSkewSecs ≤ secs → secs.toNat < 2 ^ 63 →
      Validator.check ⟨p, s⟩ b previous true now window = .ok () →
      Validator.check ⟨{ p with maxTimestampSkewSecs := secs }, s⟩ b previous true now window =
        .ok ()) :=
  ⟨Validator.check_with_clock_of_pass, ChainParams.natAbs_maxTimestampSkewMs p,
    fun _ hle hsecs hok => Validator.check_with_clock_mono hle hsecs hok⟩

/-- The main chain's settings under the test chain's name, with no zero bits demanded and the
largest skew a setting holds, `2^64 - 1` seconds. -/
def widestSkewParams : ChainParams :=
  { ChainParams.standard with chainName := "tessera-test", maxZeroBits := 0,
                              maxTimestampSkewSecs := 18446744073709551615 }

/-- The first block over the placeholder passes every rule but the clock rule under these
settings, at any local time. -/
theorem placeholderBlock_passes_widest (now : Int64) :
    Validator.check ⟨widestSkewParams, Store.empty⟩ (placeholderBlock 1) none false now [] =
      .ok () := by
  rw [Validator.check_eq_ok_iff]
  refine ⟨rfl, rfl, rfl, fun h => absurd h (by decide), ?_, fun h => absurd h (by decide)⟩
  show placeholderFields.hash.meets (Target.ofDifficulty widestSkewParams Decimal.one) = true
  rw [Target.ofDifficulty_one rfl]
  exact Digest.meets_all_ones (Mining.length_hash _)

/-- At the widest setting the clock rule tolerates a second, though the configured skew is the
largest signed 64-bit number: a block two seconds from the local time is refused, and the same
block passes when the setting is `2^63 - 1` seconds, a smaller one. -/
theorem widest_skew_refuses_two_seconds :
    Validator.check ⟨widestSkewParams, Store.empty⟩ (placeholderBlock 1) none false 2000 [] =
        .ok () ∧
      Validator.skewMs 2000 (placeholderBlock 1).header.timestamp = 2000 ∧
      2000 ≤ widestSkewParams.configuredSkewMs ∧
      Validator.check ⟨widestSkewParams, Store.empty⟩ (placeholderBlock 1) none true 2000 [] =
        .error (.timestamp 0 2000) ∧
      Validator.check ⟨{ widestSkewParams with maxTimestampSkewSecs := 9223372036854775807 },
        Store.empty⟩ (placeholderBlock 1) none true 2000 [] = .ok () := by
  have hpass := placeholderBlock_passes_widest 2000
  have hskew : Validator.skewMs 2000 (placeholderBlock 1).header.timestamp = 2000 := by decide
  have hwide : widestSkewParams.maxTimestampSkewMs.natAbs = 1000 := by
    rw [ChainParams.natAbs_maxTimestampSkewMs, if_neg (by decide)]
    decide
  have hnarrow :
      ({ widestSkewParams with maxTimestampSkewSecs := 9223372036854775807 } : ChainParams).maxTimestampSkewMs.natAbs =
        2 ^ 63 - 1 := by
    rw [ChainParams.natAbs_maxTimestampSkewMs, if_pos (by decide)]
    decide
  refine ⟨hpass, hskew, by decide, ?_, ?_⟩
  · rw [Validator.check_with_clock_of_pass hpass, hskew, hwide]
    rfl
  · rw [Validator.check_with_clock_of_pass
      ((Validator.check_without_clock_skew _ _ _ _ _ _ _).trans hpass), hskew]
    simp only [hnarrow]
    rfl

/-- Settings of a ten-minute skew accept the first block over the placeholder at its own
millisecond, and so does a setting one second larger. -/
theorem clock_rule_tolerates_wrapped_skew_at_ten_minutes :
    Validator.check ⟨{ widestSkewParams with maxTimestampSkewSecs := 600 }, Store.empty⟩
        (placeholderBlock 1) none true 0 [] = .ok () ∧
      Validator.check ⟨{ widestSkewParams with maxTimestampSkewSecs := 601 }, Store.empty⟩
        (placeholderBlock 1) none true 0 [] = .ok () := by
  have hpass : Validator.check ⟨{ widestSkewParams with maxTimestampSkewSecs := 600 }, Store.empty⟩
      (placeholderBlock 1) none false 0 [] = .ok () :=
    (Validator.check_without_clock_skew _ _ _ _ _ _ _).trans (placeholderBlock_passes_widest 0)
  have hlaw := clock_rule_tolerates_wrapped_skew { widestSkewParams with maxTimestampSkewSecs := 600 }
    Store.empty (placeholderBlock 1) none 0 []
  have hok : Validator.check ⟨{ widestSkewParams with maxTimestampSkewSecs := 600 }, Store.empty⟩
      (placeholderBlock 1) none true 0 [] = .ok () := by
    rw [hlaw.1 hpass, if_pos (by rw [hlaw.2.1, if_pos (by decide)]; decide)]
  exact ⟨hok, hlaw.2.2 601 (by decide) (by decide) hok⟩

end WorkLedger
