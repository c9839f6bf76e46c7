import WorkLedger.Chain.Validation
import WorkLedger.Proofs.DecimalEquality

/-!
# What the validator accepts

The validator's rules, read back as conditions: a block passes exactly when its transactions
hash to its Merkle root, it carries the chain's name, its stored hash is the hash of its fields,
a block after the first links to its previous header and declares the retargeted difficulty,
it meets the target of its own difficulty, and, when asked, its timestamp is close to the local
time (`Validator.check_eq_ok_iff`, `Validator.checkLinkage_eq_ok_iff`).

The chain a validator reads is used for one thing only: the retarget lookback of a block after
the first. So two chains, or a chain and a window of headers, that agree on the header looked
back to give the same verdict (`Retarget.next_congr`, `Validator.check_congr`).

* `Store.Valid p c`: the blocks of `c` are numbered from zero, each links to the one before,
  and each passes the validator against the one before (the first against none), with `c`
  itself as the chain and no window.
-/

namespace WorkLedger

theorem UInt64.toNat_min (a b : UInt64) : (min a b).toNat = min a.toNat b.toNat := by
  show (if a ≤ b then a else b).toNat = _
  split <;> rename_i h <;> rw [UInt64.le_iff_toNat_le] at h <;> omega

/-- The number looked back to: `interval` blocks before `n`, never before block zero. -/
theorem UInt64.toNat_sub_min (n interval : UInt64) :
    (n - min n interval).toNat = n.toNat - min n.toNat interval.toNat := by
  rw [UInt64.toNat_sub_of_le _ _ (by rw [UInt64.le_iff_toNat_le, UInt64.toNat_min]; omega),
    UInt64.toNat_min]

namespace Retarget

/-- Retargeting after `h` reads the chain and the window only at the header looked back to. -/
theorem next_congr {p : ChainParams} {s s' : Store} {h : Header} {w w' : List Header}
    (hl : lookup s w (h.blockNumber - min h.blockNumber p.retargetInterval) =
      lookup s' w' (h.blockNumber - min h.blockNumber p.retargetInterval)) :
    next p s h w = next p s' h w' := by
  simp only [next, hl]

theorem lookup_nil (s : Store) (n : UInt64) :
    lookup s [] n = match s.header? n.toNat with
      | some h => .ok h
      | none => .error (.headerNotFound n) := rfl

end Retarget

namespace Validator

@[simp] theorem require_eq_ok_iff {ok : Bool} {r : Rejection} :
    require ok r = .ok () ↔ ok = true := by
  cases ok <;> simp [require]

theorem bind_eq_ok_unit {ε : Type} {x y : Except ε Unit} :
    (x >>= fun _ => y) = .ok () ↔ x = .ok () ∧ y = .ok () := by
  cases x <;> simp [bind, Except.bind]

theorem require_eq_error_iff {ok : Bool} {r e : Rejection} :
    require ok r = .error e ↔ ok = false ∧ r = e := by
  cases ok <;> simp [require]

theorem bind_eq_error_unit {ε : Type} {x : Except ε Unit} {k : Unit → Except ε Unit} {e : ε} :
    (x >>= k) = .error e ↔ x = .error e ∨ (x = .ok () ∧ k () = .error e) := by
  cases x <;> simp [bind, Except.bind]

/-- A block after the first passes the linkage rules exactly when it follows its previous header
by number and hash and declares (as a number) the difficulty retargeting gives. -/
theorem checkLinkage_eq_ok_iff (v : Validator) (h : Header) (previous : Option Header)
    (window : List Header) :
    v.checkLinkage h previous window = .ok () ↔
      ∃ prev, previous = some prev ∧ h.blockNumber = prev.blockNumber + 1 ∧
        h.previousHash = prev.hash ∧
        ∃ d, Retarget.next v.params v.store prev window = .ok d ∧
          (d == h.difficulty) = true := by
  cases previous with
  | none => simp [checkLinkage]
  | some prev =>
    simp only [checkLinkage, bind_eq_ok_unit, require_eq_ok_iff, beq_iff_eq, Option.some.injEq,
      exists_eq_left']
    cases Retarget.next v.params v.store prev window <;> simp [require_eq_ok_iff]

/-- **The rules of the validator.** A block passes exactly when every rule holds; the linkage
rules bind only a block after the first, and the clock rule only when asked. -/
theorem check_eq_ok_iff (v : Validator) (b : Block) (previous : Option Header) (checkTime : Bool)
    (now : Int64) (window : List Header) :
    v.check b previous checkTime now window = .ok () ↔
      Merkle.root b.transactions = b.header.merkleRoot ∧
      b.header.fields.chainName = v.params.chainName ∧
      b.header.fields.hash = b.header.hash ∧
      (0 < b.header.blockNumber → v.checkLinkage b.header previous window = .ok ()) ∧
      Target.headerMeets v.params b.header = true ∧
      (checkTime = true →
        skewMs now b.header.timestamp ≤ v.params.maxTimestampSkewMs.natAbs) := by
  simp only [check, bind_eq_ok_unit, require_eq_ok_iff, beq_iff_eq]
  by_cases hn : 0 < b.header.blockNumber <;> cases checkTime <;>
    simp [hn, bind_eq_ok_unit, pure, Except.pure]

/-- The clock is read only when the clock rule is asked for. -/
theorem check_now {v : Validator} {b : Block} {previous : Option Header} {window : List Header}
    (now now' : Int64) :
    v.check b previous false now window = v.check b previous false now' window := by
  simp only [check, Bool.false_eq_true, if_false]

/-- Two validators of one chain's settings agree on a block when retargeting after its previous
header gives the same difficulty for both. -/
theorem check_congr {p : ChainParams} {s s' : Store} {b : Block} {previous : Option Header}
    {checkTime : Bool} {now : Int64} {w w' : List Header}
    (hn : ∀ prev, previous = some prev →
      Retarget.next p s prev w = Retarget.next p s' prev w') :
    check ⟨p, s⟩ b previous checkTime now w =
      check ⟨p, s'⟩ b previous checkTime now w' := by
  cases previous with
  | none => rfl
  | some prev =>
    simp only [check, checkLinkage]
    rw [hn prev rfl]

end Validator

namespace Store

/-- **A valid chain.** Block `i` has number `i`; a block after the first links to the stored
hash of the block before it; the first block passes the validator with no previous header and
every later one with the header before it, against the chain itself and no window. -/
structure Valid (p : ChainParams) (c : Store) : Prop where
  numbered : ∀ i (h : i < c.blocks.length), c.blocks[i].blockNumber.toNat = i
  linked : ∀ i (h : i + 1 < c.blocks.length),
    c.blocks[i + 1].header.previousHash = c.blocks[i].hash
  first_passes : ∀ (h : 0 < c.blocks.length) (now : Int64),
    Validator.check ⟨p, c⟩ c.blocks[0] none false now [] = .ok ()
  passes : ∀ i (h : i + 1 < c.blocks.length) (now : Int64),
    Validator.check ⟨p, c⟩ c.blocks[i + 1] (some c.blocks[i].header) false now [] = .ok ()

theorem header?_append_of_lt (c : Store) (b : Block) {k : Nat} (hk : k < c.height) :
    (⟨c.blocks ++ [b]⟩ : Store).header? k = c.header? k := by
  simp [header?, block?, List.getElem?_append_left (show k < c.blocks.length from hk)]

end Store

end WorkLedger
