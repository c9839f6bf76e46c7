import WorkLedger.Ledger.Transaction
import WorkLedger.Decimal.Text
import WorkLedger.Decimal.Equality

/-!
# Block headers

The fields of a header link a block to its chain (name, number, previous hash), commit to its
transactions (Merkle root), and carry the proof of work (timestamp, difficulty, nonce and the
miner's signature). Their canonical bytes are the *hashable bytes*; sealing attaches their
digest. A stored header keeps whatever hash it was stored with, so `hash` and the digest of
the hashable bytes differ exactly when the header was tampered with.

The miner's signature is limited to fifty characters; sealing, restoring a stored header and
reading canonical bytes all refuse a longer one.
-/

namespace WorkLedger

/-- The fields of a block header, without its hash. -/
structure HeaderFields where
  version : UInt32
  chainName : String
  blockNumber : UInt64
  previousHash : Digest
  merkleRoot : Digest
  timestamp : Int64
  difficulty : Decimal
  nonce : UInt32
  minerSignature : String
  deriving BEq, Inhabited, Repr

/-- A header: its fields and the hash it was sealed or stored with. -/
structure Header where
  fields : HeaderFields
  hash : Digest
  deriving BEq, Inhabited, Repr

namespace HeaderFields

/-- The most characters a miner's signature may have. -/
def maxSignatureLength : Nat := 50

/-- Refuses a signature of more than fifty characters. -/
def checkSignature (f : HeaderFields) : Except LedgerError Unit :=
  let n := f.minerSignature.length
  if maxSignatureLength < n then
    .error (.illegalArgument ("miner signature is " ++ toString n ++ " characters, at most " ++
      toString maxSignatureLength ++ " allowed"))
  else .ok ()

/-- The canonical bytes of every field up to the difficulty: all that the nonce and the
signature follow. -/
def stampBytes (f : HeaderFields) : ByteArray :=
  Canonical.u32 f.version ++ Canonical.text f.chainName ++ Canonical.u64 f.blockNumber ++
    Canonical.text f.previousHash.hex ++ Canonical.text f.merkleRoot.hex ++
    Canonical.i64 f.timestamp ++ Canonical.text f.difficulty.toText

/-- The canonical bytes of all fields, which the header hash covers. -/
def hashableBytes (f : HeaderFields) : ByteArray :=
  f.stampBytes ++ Canonical.u32 f.nonce ++ Canonical.text f.minerSignature

/-- The digest of the hashable bytes. -/
def hash (f : HeaderFields) : Digest := Digest.ofData f.hashableBytes

/-- The header carrying the digest of these fields, after the signature check. -/
def sealed (f : HeaderFields) : Except LedgerError Header := do
  f.checkSignature
  pure ⟨f, f.hash⟩

/-- Reads a digest written as hexadecimal text. -/
def readDigest : Canonical.Reader Digest := do
  let text ← Canonical.readText
  match Digest.ofHex text with
  | .ok d => pure d
  | .error e => throw (.field ("Failed to deserialize HashValue from hex string: " ++ e.message))

/-- Reads a decimal written as text. -/
def readDecimal : Canonical.Reader Decimal := do
  let text ← Canonical.readText
  match Decimal.parse text with
  | .ok d => pure d
  | .error e => throw (.field e.message)

/-- Reads the fields from the front of canonical bytes. -/
def reader : Canonical.Reader HeaderFields := do
  let version ← Canonical.readU32
  let chainName ← Canonical.readText
  let blockNumber ← Canonical.readU64
  let previousHash ← readDigest
  let merkleRoot ← readDigest
  let timestamp ← Canonical.readI64
  let difficulty ← readDecimal
  let nonce ← Canonical.readU32
  let minerSignature ← Canonical.readText
  pure ⟨version, chainName, blockNumber, previousHash, merkleRoot, timestamp, difficulty, nonce,
    minerSignature⟩

end HeaderFields

namespace Header

/-- A header restored with the hash it was stored with, after the signature check. -/
def ofStored (fields : HeaderFields) (hash : Digest) : Except LedgerError Header := do
  fields.checkSignature
  pure ⟨fields, hash⟩

def blockNumber (h : Header) : UInt64 := h.fields.blockNumber
def previousHash (h : Header) : Digest := h.fields.previousHash
def merkleRoot (h : Header) : Digest := h.fields.merkleRoot
def timestamp (h : Header) : Int64 := h.fields.timestamp
def difficulty (h : Header) : Decimal := h.fields.difficulty

/-- The hashable bytes of the fields. -/
def hashableBytes (h : Header) : ByteArray := h.fields.hashableBytes

/-- The canonical bytes: the hashable bytes, then the hash as hexadecimal text. -/
def encode (h : Header) : ByteArray := h.fields.hashableBytes ++ Canonical.text h.hash.hex

/-- Reads a header from the front of canonical bytes, without the signature check. -/
def reader : Canonical.Reader Header := do
  let fields ← HeaderFields.reader
  let hash ← HeaderFields.readDigest
  pure ⟨fields, hash⟩

/-- Reads a header from canonical bytes, then checks the signature; anything after the header is
ignored. -/
def decode (bytes : ByteArray) : Except LedgerError Header := do
  let h ← (Canonical.decode reader bytes).mapError .encoding
  h.fields.checkSignature
  pure h

end Header

end WorkLedger
