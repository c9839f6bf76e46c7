import WorkLedger.Digest.Basic
import WorkLedger.Ledger.Error

/-!
# Transactions

A transaction authorizes an identity: it names the identity, a nonce proving work for a seed
epoch, and the identity's public key. The ledger stores, compares and hashes these fields
without interpreting them. One fixed transaction, the placeholder, stands in when a block has
nothing else to carry.
-/

namespace WorkLedger

/-- An identity authorization record. -/
structure Transaction where
  version : UInt32
  identity : String
  nonce : UInt64
  seed : UInt64
  publicKey : List UInt8
  deriving DecidableEq, Hashable, Inhabited, Repr

namespace Transaction

/-- The version of newly made transactions. -/
def currentVersion : UInt32 := 1

/-- The stand-in transaction: mined when nothing real is pending, and the only transaction of a
chain's first block. -/
def placeholder : Transaction :=
  ⟨currentVersion, "tessera-placeholder", 0, 0, List.replicate 32 0⟩

/-- Whether a transaction is the placeholder. -/
def isPlaceholder (t : Transaction) : Bool := t == placeholder

/-- A transaction with a non-empty identity and key; the identity is checked first. -/
def make (version : UInt32) (identity : String) (nonce seed : UInt64) (publicKey : List UInt8) :
    Except LedgerError Transaction :=
  if identity.isEmpty then .error (.illegalArgument "transaction identity must not be empty")
  else if publicKey.isEmpty then
    .error (.illegalArgument "transaction public key must not be empty")
  else .ok ⟨version, identity, nonce, seed, publicKey⟩

/-- The canonical bytes: version, identity, nonce, seed, and the key as hexadecimal text. -/
def encode (t : Transaction) : ByteArray :=
  Canonical.u32 t.version ++ Canonical.text t.identity ++ Canonical.u64 t.nonce ++
    Canonical.u64 t.seed ++ Canonical.text (Hex.encode t.publicKey)

/-- The digest of the canonical bytes. -/
def hash (t : Transaction) : Digest := Digest.ofData t.encode

/-- Reads a transaction from the front of canonical bytes. -/
def reader : Canonical.Reader Transaction := do
  let version ← Canonical.readU32
  let identity ← Canonical.readText
  let nonce ← Canonical.readU64
  let seed ← Canonical.readU64
  let keyText ← Canonical.readText
  match Hex.decode keyText with
  | .ok key => pure ⟨version, identity, nonce, seed, key⟩
  | .error e => throw (.field e.message)

/-- Reads a transaction from canonical bytes; anything after it is ignored. -/
def decode (bytes : ByteArray) : Except LedgerError Transaction :=
  (Canonical.decode reader bytes).mapError .encoding

end Transaction

end WorkLedger
