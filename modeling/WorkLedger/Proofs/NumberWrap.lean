import WorkLedger.Proofs.Retarget
import WorkLedger.Proofs.Mining

/-!
# The number after a block number

Block numbers are 64-bit words, and the number after `n` is `n + 1` in those words: exact below
the last number, `2^64 - 1`, and zero after it (`UInt64.toNat_succ`). Three rules add one to a
number, and the wrap reaches them differently.

* The validator asks a block after the first to carry its previous header's number plus one. It
  asks only blocks numbered above zero, and zero is the one number the wrap produces, so the
  rule holds exactly when the block's number is the previous one plus one in whole numbers
  (`Validator.follows_iff`): no block follows the last number, with the wrap or without it. The
  validator retargets only once the rule holds, so after a header numbered below the last.
* Retargeting after a header tests the next number against the interval: below the last number
  this is the test in whole numbers, after it the next number is zero, a multiple of every
  interval, and the header `interval` numbers back is looked up (`Retarget.next_after_last`).
* The search for the block after a previous header numbers it the previous number plus one,
  so zero after the last number (`Mining.Search.blockNumber_make`).
-/

namespace WorkLedger

/-- The successor of a 64-bit number: exact below the last number, zero after it. -/
theorem UInt64.toNat_succ (n : UInt64) :
    (n + 1).toNat = if n.toNat < 2 ^ 64 - 1 then n.toNat + 1 else 0 := by
  have hn := n.toNat_lt
  rw [UInt64.toNat_add, UInt64.toNat_one]
  split <;> omega

namespace Validator

/-- The number rule, for a block numbered above zero, is the rule in whole numbers. -/
theorem follows_iff {h prev : Header} (hpos : 0 < h.blockNumber) :
    (h.blockNumber == prev.blockNumber + 1) = true ↔
      h.blockNumber.toNat = prev.blockNumber.toNat + 1 := by
  have hpos' : 0 < h.blockNumber.toNat := by
    rwa [UInt64.lt_iff_toNat_lt, UInt64.toNat_zero] at hpos
  have hlt := h.blockNumber.toNat_lt
  rw [beq_iff_eq, ← UInt64.toNat_inj, UInt64.toNat_succ]
  split <;> omega

/-- **The linkage rules in whole numbers.** A block numbered above zero passes them exactly when
its number is the previous one plus one, it names the previous hash, and it declares the
difficulty that retargeting after the previous header gives. -/
theorem checkLinkage_eq_ok_iff_exact (v : Validator) {h : Header} (hpos : 0 < h.blockNumber)
    (previous : Option Header) (window : List Header) :
    v.checkLinkage h previous window = .ok () ↔
      ∃ prev, previous = some prev ∧ h.blockNumber.toNat = prev.blockNumber.toNat + 1 ∧
        h.previousHash = prev.hash ∧
        ∃ d, Retarget.next v.params v.store prev window = .ok d ∧
          (d == h.difficulty) = true := by
  have hexact (prev : Header) :
      h.blockNumber = prev.blockNumber + 1 ↔ h.blockNumber.toNat = prev.blockNumber.toNat + 1 :=
    beq_iff_eq.symm.trans (follows_iff hpos)
  simp only [checkLinkage_eq_ok_iff, hexact]

/-- With a previous header, the linkage rules reject a block for its number exactly when the
number rule fails. -/
theorem checkLinkage_eq_blockNumber_iff (v : Validator) (h prev : Header) (window : List Header)
    (p f : UInt64) :
    v.checkLinkage h (some prev) window = .error (.blockNumber p f) ↔
      (h.blockNumber == prev.blockNumber + 1) = false ∧ prev.blockNumber = p ∧
        h.blockNumber = f := by
  simp only [checkLinkage, bind_eq_error_unit, require_eq_error_iff, require_eq_ok_iff,
    Rejection.blockNumber.injEq]
  cases Retarget.next v.params v.store prev window <;> simp [require_eq_error_iff]

/-- A block numbered above zero is rejected for its number exactly when its number is not the
previous one plus one in whole numbers. -/
theorem checkLinkage_eq_blockNumber_iff_exact (v : Validator) {h : Header}
    (hpos : 0 < h.blockNumber) (prev : Header) (window : List Header) (p f : UInt64) :
    v.checkLinkage h (some prev) window = .error (.blockNumber p f) ↔
      h.blockNumber.toNat ≠ prev.blockNumber.toNat + 1 ∧ prev.blockNumber = p ∧
        h.blockNumber = f := by
  rw [checkLinkage_eq_blockNumber_iff, ne_eq, ← follows_iff hpos, Bool.not_eq_true]

end Validator

namespace Retarget

/-- After the last number the next number is zero, so retargeting looks back whatever the
interval. -/
theorem next_after_last {p : ChainParams} {store : Store} {h : Header} {window : List Header}
    (hlast : h.blockNumber.toNat = 2 ^ 64 - 1) :
    next p store h window =
      (lookup store window (h.blockNumber - min h.blockNumber p.retargetInterval)).map
        fun earlier => adjust h.difficulty
          (p.retargetInterval.toNat * p.targetSecondsPerBlock.toNat)
          (elapsedSeconds h.timestamp earlier.timestamp) :=
  next_of_boundary (by rw [hlast]; simp)

/-- Below the last number the boundary test is the test in whole numbers. -/
theorem next_of_lt_last {p : ChainParams} {store : Store} {h : Header} {window : List Header}
    (hlt : h.blockNumber.toNat < 2 ^ 64 - 1)
    (hb : (h.blockNumber.toNat + 1) % p.retargetInterval.toNat ≠ 0) :
    next p store h window = .ok h.difficulty :=
  next_of_not_boundary
    (by rwa [Nat.mod_eq_of_lt (show h.blockNumber.toNat + 1 < 2 ^ 64 by omega)])

end Retarget

namespace Mining.Search

/-- The search numbers its block after the previous header: zero after the last number. -/
theorem blockNumber_make {p : ChainParams} {previous : Header} {txs : List Transaction}
    {d : Decimal} {timestamp : Int64} {signature : String} {s : Search}
    (hs : make p previous txs d timestamp signature = .ok s) :
    s.blockNumber.toNat =
      if previous.blockNumber.toNat < 2 ^ 64 - 1 then previous.blockNumber.toNat + 1 else 0 := by
  rw [make_eq_ok hs]
  exact UInt64.toNat_succ _

end Mining.Search

/-- **Where a block number wraps.** One more than a header's 64-bit number is exact below the
last number and zero after it. The validator adds one to a previous header's number only for a
block numbered above zero, so its verdict is the verdict in whole numbers: such a block passes
the linkage rules exactly when its number is the previous one plus one, it names the previous hash
and it declares the retargeted difficulty, and it is rejected for its number exactly when its
number is not the previous one plus one. Retargeting after a header below the last number tests
the next number in whole numbers; after the last number it looks back whatever the interval. The
search for the block after a header numbers it the header's number plus one, zero after the
last. -/
theorem block_number_wraps_after_last (v : Validator) (h : Header) (previous : Option Header)
    (window : List Header) :
    (h.blockNumber + 1).toNat =
      (if h.blockNumber.toNat < 2 ^ 64 - 1 then h.blockNumber.toNat + 1 else 0) ∧
    (0 < h.blockNumber →
      (v.checkLinkage h previous window = .ok () ↔
        ∃ prev, previous = some prev ∧ h.blockNumber.toNat = prev.blockNumber.toNat + 1 ∧
          h.previousHash = prev.hash ∧
          ∃ d, Retarget.next v.params v.store prev window = .ok d ∧
            (d == h.difficulty) = true) ∧
      ∀ prev p f, previous = some prev →
        (v.checkLinkage h previous window = .error (.blockNumber p f) ↔
          h.blockNumber.toNat ≠ prev.blockNumber.toNat + 1 ∧ prev.blockNumber = p ∧
            h.blockNumber = f)) ∧
    (h.blockNumber.toNat < 2 ^ 64 - 1 →
      (h.blockNumber.toNat + 1) % v.params.retargetInterval.toNat ≠ 0 →
      Retarget.next v.params v.store h window = .ok h.difficulty) ∧
    (h.blockNumber.toNat = 2 ^ 64 - 1 →
      Retarget.next v.params v.store h window =
        (Retarget.lookup v.store window
            (h.blockNumber - min h.blockNumber v.params.retargetInterval)).map
          fun earlier => Retarget.adjust h.difficulty
            (v.params.retargetInterval.toNat * v.params.targetSecondsPerBlock.toNat)
            (Retarget.elapsedSeconds h.timestamp earlier.timestamp)) ∧
    ∀ txs d timestamp signature (s : Mining.Search),
      Mining.Search.make v.params h txs d timestamp signature = .ok s →
      s.blockNumber.toNat =
        if h.blockNumber.toNat < 2 ^ 64 - 1 then h.blockNumber.toNat + 1 else 0 :=
  ⟨UInt64.toNat_succ h.blockNumber,
    fun hpos =>
      ⟨v.checkLinkage_eq_ok_iff_exact hpos previous window,
        fun prev p f hp => hp ▸ v.checkLinkage_eq_blockNumber_iff_exact hpos prev window p f⟩,
    Retarget.next_of_lt_last, Retarget.next_after_last,
    fun _ _ _ _ _ hs => Mining.Search.blockNumber_make hs⟩

/-- Five-block intervals of a minute a block. -/
def intervalFive : ChainParams :=
  { ChainParams.testing with retargetInterval := 5, targetSecondsPerBlock := 60 }

/-- After the last number, with intervals of five blocks, `2^64` is no multiple of five, yet the
next number wraps to zero and retargeting looks back to block `2^64 - 6`, which an empty chain
does not hold. -/
theorem lookback_after_last_number_fails :
    (Retarget.lastHeader.blockNumber.toNat + 1) % intervalFive.retargetInterval.toNat ≠ 0 ∧
      (Retarget.lastHeader.blockNumber + 1).toNat = 0 ∧
      Retarget.next intervalFive Store.empty Retarget.lastHeader [] =
        .error (.headerNotFound 18446744073709551610) :=
  ⟨by decide, by decide, rfl⟩

end WorkLedger
