import WorkLedger.Codec.Canonical

/-!
# Ledger errors

The ways a ledger operation can refuse: a transaction missing from the block it should prove
membership in, an argument outside what the ledger accepts, a header number absent from the
chain, peers with no usable reply, and bytes that are no canonical encoding.
-/

namespace WorkLedger

/-- Why a ledger operation failed. -/
inductive LedgerError where
  /-- The transaction is not in the block or proof at hand. -/
  | transactionNotPresent
  /-- An argument the ledger does not accept, with the reason. -/
  | illegalArgument (reason : String)
  /-- No header with this number is known. -/
  | headerNotFound (number : UInt64)
  /-- No peer gave a reply that could be used. -/
  | peerUnavailable
  /-- Canonical bytes could not be read. -/
  | encoding (cause : Canonical.DecodeError)
  deriving DecidableEq, Repr

/-- The message of a ledger error. -/
def LedgerError.message : LedgerError → String
  | .transactionNotPresent => "transaction is not present in the audit context"
  | .illegalArgument reason => "illegal argument: " ++ reason
  | .headerNotFound n => "block header #" ++ toString n ++ " not found"
  | .peerUnavailable => "no peer returned a usable reply"
  | .encoding cause => "failed to encode ledger entity: " ++ cause.message

end WorkLedger
