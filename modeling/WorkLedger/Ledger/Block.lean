import WorkLedger.Ledger.Header

/-!
# Blocks

A block is a header and the transactions its Merkle root commits to.
-/

namespace WorkLedger

/-- A header and its transactions. -/
structure Block where
  header : Header
  transactions : List Transaction
  deriving BEq, Inhabited, Repr

namespace Block

def hash (b : Block) : Digest := b.header.hash
def blockNumber (b : Block) : UInt64 := b.header.blockNumber

/-- Whether the block carries a transaction equal to `t`. -/
def contains (b : Block) (t : Transaction) : Bool := b.transactions.contains t

end Block

end WorkLedger
