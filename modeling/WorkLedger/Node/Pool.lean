import WorkLedger.Ledger.Transaction

/-!
# The pool of pending transactions

A node keeps the transactions it has been sent and not yet seen in a block, one per hash.
The pool is kept in ascending order of hash bytes, so that the transactions a miner takes from
it, and the Merkle root built over them, do not depend on the order they arrived in.

* `Pool.add` refuses the placeholder transaction, and reports whether the transaction was new.
* `Pool.prune` drops the transactions of a block that joined the chain.
* `Pool.pending` lists the pool in hash order.
-/

namespace WorkLedger

/-- Why a transaction is not taken into the pool. -/
inductive PoolError where
  /-- The placeholder only fills blocks that have nothing else. -/
  | placeholder
  deriving DecidableEq

/-- The reason, in words. -/
def PoolError.message : PoolError → String
  | .placeholder => "the placeholder transaction cannot be submitted"

/-- Pending transactions with their hashes, in ascending order of hash bytes. -/
structure Pool where
  entries : List (Digest × Transaction)
  deriving Inhabited

namespace Pool

/-- The pool without transactions. -/
def empty : Pool := ⟨[]⟩

/-- Whether a transaction with hash `h` is pending. -/
def contains (p : Pool) (h : Digest) : Bool := p.entries.any (·.1 == h)

/-- Inserts an entry before the first one with a larger hash. -/
def insertByHash (e : Digest × Transaction) : List (Digest × Transaction) → List (Digest × Transaction)
  | [] => [e]
  | x :: xs => if Digest.lexCompare e.1 x.1 == .gt then x :: insertByHash e xs else e :: x :: xs

/-- Adds a transaction: `true` if it was not pending yet, `false` (and the pool unchanged) if a
transaction with its hash already is. -/
def add (p : Pool) (t : Transaction) : Except PoolError (Bool × Pool) :=
  if t.isPlaceholder then .error .placeholder
  else
    let h := t.hash
    if p.contains h then .ok (false, p)
    else .ok (true, ⟨insertByHash (h, t) p.entries⟩)

/-- Removes the transaction with hash `h`, if pending. -/
def remove (p : Pool) (h : Digest) : Pool := ⟨p.entries.filter (·.1 != h)⟩

/-- Removes the transactions of a block, the placeholder apart. -/
def prune (p : Pool) (included : List Transaction) : Pool :=
  (included.filter (!·.isPlaceholder)).foldl (fun q t => q.remove t.hash) p

/-- The pending transactions in ascending order of hash bytes. -/
def pending (p : Pool) : List Transaction := p.entries.map (·.2)

/-- The number of pending transactions. -/
def size (p : Pool) : Nat := p.entries.length

end Pool

end WorkLedger
