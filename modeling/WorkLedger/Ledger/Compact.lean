import WorkLedger.Ledger.Json

/-!
# Compact blocks

A compact block proves one transaction's membership without the other transactions: the
header, the transaction and its audit path. It verifies when the path is for the header's block
and folds to the header's Merkle root.
-/

namespace WorkLedger

/-- A header with one transaction and the audit path proving it is in the block. -/
structure CompactBlock where
  header : Header
  transaction : Transaction
  auditPath : AuditPath
  deriving BEq, Inhabited, Repr

namespace CompactBlock

/-- The compact form of block `b` for its first transaction equal to `t`. -/
def ofBlock (b : Block) (t : Transaction) : Except LedgerError CompactBlock := do
  let path ← AuditPath.ofBlock t b
  pure ⟨b.header, t, path⟩

/-- Whether the path is for this block and rebuilds its Merkle root; a path about another
transaction is an error. -/
def verify (c : CompactBlock) : Except LedgerError Bool :=
  if c.auditPath.blockNumber ≠ c.header.blockNumber then .ok false
  else do
    let root ← AuditPath.rootFor c.transaction c.auditPath
    pure (root == c.header.merkleRoot)

def shape : Json.Shape :=
  .record "CompactBlock" [("header", Header.shape), ("transaction", Transaction.shape),
    ("audit_path", AuditPath.shape)]

def ofDatum (d : Json.Datum) : CompactBlock :=
  ⟨Header.ofDatum (d.field 0), Transaction.ofDatum (d.field 1), AuditPath.ofDatum (d.field 2)⟩

def toJson (c : CompactBlock) : Json :=
  .obj [("header", c.header.toJson), ("transaction", c.transaction.toJson),
    ("audit_path", c.auditPath.toJson)]

end CompactBlock

end WorkLedger
