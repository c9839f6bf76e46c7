import WorkLedger.Ledger.Block

/-!
# Merkle roots and audit paths

The leaves are the transaction hashes. Each level pairs its nodes left to right, and a lone last
node is paired with itself; pairing rounds go on until one node is left, and at least one round
always runs, so a single transaction `t` has the root `combine (hash t) (hash t)`. No
transactions have the zero digest as root.

An audit path proves that a transaction is in a block: from the leaf up, each step gives the
sibling of the running node and whether that sibling stands on the left. Folding the steps over
the transaction's hash rebuilds the root.
-/

namespace WorkLedger.Merkle

/-- One level up: neighbours are combined in pairs, a lone last node with itself. -/
def pairUp : List Digest → List Digest
  | a :: b :: rest => Digest.combine a b :: pairUp rest
  | [a] => [Digest.combine a a]
  | [] => []

theorem length_pairUp : ∀ (l : List Digest), (pairUp l).length = (l.length + 1) / 2
  | _ :: _ :: rest => by simp [pairUp, length_pairUp rest]; omega
  | [_] => by simp [pairUp]
  | [] => by simp [pairUp]

/-- Pairing rounds from `level` until one node is left; the empty level has the zero digest. -/
def climb (level : List Digest) : Digest :=
  match pairUp level with
  | [d] => d
  | next => if _h : next.length < level.length then climb next else Digest.zero
termination_by level.length

/-- The hashes of the transactions, in order. -/
def leaves (txs : List Transaction) : List Digest := txs.map Transaction.hash

/-- The Merkle root of a list of transactions. -/
def root (txs : List Transaction) : Digest := climb (leaves txs)

end WorkLedger.Merkle

namespace WorkLedger

/-- One step of an audit path: the sibling of the running node, and whether it is on the left. -/
structure AuditStep where
  sibling : Digest
  isLeft : Bool
  deriving DecidableEq, Inhabited, Repr

/-- A proof that `transaction` is in block `blockNumber`: the steps from its leaf to the root. -/
structure AuditPath where
  transaction : Transaction
  blockNumber : UInt64
  steps : List AuditStep
  deriving DecidableEq, Inhabited, Repr

namespace AuditPath

/-- The step at position `index` of `level`: a node at an odd position has its sibling on the
left; one at an even position has it on the right, or is its own sibling when it is last. -/
def stepAt (level : List Digest) (index : Nat) : AuditStep :=
  if index % 2 = 1 then ⟨level.getD (index - 1) Digest.zero, true⟩
  else ⟨(level[index + 1]?).getD (level.getD index Digest.zero), false⟩

/-- The steps from position `index` of `level` up to the level of one node. -/
def stepsFrom (level : List Digest) (index : Nat) : List AuditStep :=
  let next := Merkle.pairUp level
  stepAt level index ::
    (if next.length = 1 then []
     else if next.length < level.length then stepsFrom next (index / 2)
     else [])
termination_by level.length

/-- The audit path of the first transaction of `b` equal to `t`. -/
def ofBlock (t : Transaction) (b : Block) : Except LedgerError AuditPath :=
  match b.transactions.idxOf? t with
  | none => .error .transactionNotPresent
  | some index => .ok ⟨t, b.blockNumber, stepsFrom (Merkle.leaves b.transactions) index⟩

/-- One fold step: the sibling goes on the side the step says. -/
def climbStep (running : Digest) (s : AuditStep) : Digest :=
  if s.isLeft then Digest.combine s.sibling running else Digest.combine running s.sibling

/-- The root rebuilt from `t`'s hash through the steps, provided the path is about `t`. -/
def rootFor (t : Transaction) (p : AuditPath) : Except LedgerError Digest :=
  if p.transaction = t then .ok (p.steps.foldl climbStep t.hash)
  else .error .transactionNotPresent

end AuditPath

end WorkLedger
