import WorkLedger.Ledger.Merkle
import WorkLedger.Json.Schema

/-!
# Ledger entities as JSON

Each entity is an object whose members follow the entity's fields in declaration order, with
snake-case names: integers as numbers, digests and keys as lowercase hexadecimal strings, the
difficulty as its decimal text. The shapes below read the same objects back, from text or from
values already read; a digest that is not hexadecimal is refused with the reason, and so is a
difficulty that is not a decimal.
-/

namespace WorkLedger

open Json

/-- A digest as a hexadecimal string. -/
def digestShape : Shape :=
  .parsed "a string" false fun s =>
    match Digest.ofHex s with
    | .ok d => .ok (.bytes d.bytes)
    | .error e => .error ("Failed to deserialize HashValue from hex string: " ++ e.message)

/-- Bytes as a hexadecimal string. -/
def hexBytesShape : Shape :=
  .parsed "a string" false fun s =>
    match Hex.decode s with
    | .ok b => .ok (.bytes b)
    | .error e => .error e.message

/-- A decimal as its text. -/
def decimalShape : Shape :=
  .parsed "a string" true fun s =>
    match Decimal.parse s with
    | .ok d => .ok (.decimal d)
    | .error e => .error e.message

/-- The natural number of a datum, zero for any other. -/
def Json.Datum.natD : Datum → Nat
  | .nat n => n
  | _ => 0

/-- The text of a datum, empty for any other. -/
def Json.Datum.textD : Datum → String
  | .text s => s
  | _ => ""

/-- The bytes of a datum, none for any other. -/
def Json.Datum.bytesD : Datum → List UInt8
  | .bytes b => b
  | _ => []

/-- The items of a datum, none for any other. -/
def Json.Datum.itemsD : Datum → List Datum
  | .items ds => ds
  | _ => []

/-- The field `i` of a record datum. -/
def Json.Datum.field (d : Datum) (i : Nat) : Datum :=
  match d with
  | .fields ds => ds.getD i .absent
  | _ => .absent

namespace Transaction

def shape : Shape :=
  .record "Transaction" [("version", .unsigned 32), ("identity", .text), ("nonce", .unsigned 64),
    ("seed", .unsigned 64), ("public_key", hexBytesShape)]

def ofDatum (d : Datum) : Transaction :=
  ⟨(d.field 0).natD.toUInt32, (d.field 1).textD, (d.field 2).natD.toUInt64,
    (d.field 3).natD.toUInt64, (d.field 4).bytesD⟩

def toJson (t : Transaction) : Json :=
  .obj [("version", .int t.version.toNat), ("identity", .str t.identity),
    ("nonce", .int t.nonce.toNat), ("seed", .int t.seed.toNat),
    ("public_key", .str (Hex.encode t.publicKey))]

end Transaction

namespace HeaderFields

def shape : Shape :=
  .record "UnsealedHeader" [("version", .unsigned 32), ("chain_name", .text),
    ("block_number", .unsigned 64), ("previous_hash", digestShape), ("merkle_root", digestShape),
    ("timestamp", .signed64), ("difficulty", decimalShape), ("nonce", .unsigned 32),
    ("miner_signature", .text)]

def ofDatum (d : Datum) : HeaderFields :=
  let timestamp : Int := match d.field 5 with | .int i => i | _ => 0
  let difficulty : Decimal := match d.field 6 with | .decimal x => x | _ => Decimal.one
  ⟨(d.field 0).natD.toUInt32, (d.field 1).textD, (d.field 2).natD.toUInt64,
    ⟨(d.field 3).bytesD⟩, ⟨(d.field 4).bytesD⟩, Int64.ofInt timestamp, difficulty,
    (d.field 7).natD.toUInt32, (d.field 8).textD⟩

def toJson (f : HeaderFields) : Json :=
  .obj [("version", .int f.version.toNat), ("chain_name", .str f.chainName),
    ("block_number", .int f.blockNumber.toNat), ("previous_hash", .str f.previousHash.hex),
    ("merkle_root", .str f.merkleRoot.hex), ("timestamp", .int f.timestamp.toInt),
    ("difficulty", .str f.difficulty.toText), ("nonce", .int f.nonce.toNat),
    ("miner_signature", .str f.minerSignature)]

end HeaderFields

namespace Header

def shape : Shape := .record "BlockHeader" [("fields", HeaderFields.shape), ("hash", digestShape)]

def ofDatum (d : Datum) : Header := ⟨HeaderFields.ofDatum (d.field 0), ⟨(d.field 1).bytesD⟩⟩

def toJson (h : Header) : Json := .obj [("fields", h.fields.toJson), ("hash", .str h.hash.hex)]

end Header

namespace Block

def shape : Shape :=
  .record "Block" [("header", Header.shape), ("transactions", .list Transaction.shape)]

def ofDatum (d : Datum) : Block :=
  ⟨Header.ofDatum (d.field 0), (d.field 1).itemsD.map Transaction.ofDatum⟩

def toJson (b : Block) : Json :=
  .obj [("header", b.header.toJson), ("transactions", .arr (b.transactions.map Transaction.toJson))]

end Block

namespace AuditStep

def shape : Shape := .record "AuditEntry" [("sibling", digestShape), ("is_left", .boolean)]

def ofDatum (d : Datum) : AuditStep :=
  ⟨⟨(d.field 0).bytesD⟩, match d.field 1 with | .bool b => b | _ => false⟩

def toJson (s : AuditStep) : Json := .obj [("sibling", .str s.sibling.hex), ("is_left", .bool s.isLeft)]

end AuditStep

namespace AuditPath

def shape : Shape :=
  .record "AuditPath" [("transaction", Transaction.shape), ("block_number", .unsigned 64),
    ("entries", .list AuditStep.shape)]

def ofDatum (d : Datum) : AuditPath :=
  ⟨Transaction.ofDatum (d.field 0), (d.field 1).natD.toUInt64,
    (d.field 2).itemsD.map AuditStep.ofDatum⟩

def toJson (p : AuditPath) : Json :=
  .obj [("transaction", p.transaction.toJson), ("block_number", .int p.blockNumber.toNat),
    ("entries", .arr (p.steps.map AuditStep.toJson))]

end AuditPath

/-- Pretty JSON text of a value, as entities are saved. -/
def Json.pretty (j : Json) : String := Json.prettyWith FloatText.render 0 j

/-- Compact JSON text of a value. -/
def Json.compact (j : Json) : String := Json.compactWith FloatText.render j

/-- Reads an entity from JSON text that arrives as a stream; `what` names it in the error. -/
def loadEntity {α : Type} (what : String) (shape : Shape) (ofDatum : Datum → α) (text : String) :
    Except String α :=
  match shape.readText text.toUTF8 .stream with
  | .ok d => .ok (ofDatum d)
  | .error e => .error ("Failed to deserialize " ++ what ++ ": " ++ e.render)

/-- The text a transaction is saved as. -/
def Transaction.save (t : Transaction) : String := t.toJson.pretty

/-- Reads a transaction back from saved text. -/
def Transaction.load (text : String) : Except String Transaction :=
  loadEntity "Transaction" Transaction.shape Transaction.ofDatum text

/-- The text a block is saved as. -/
def Block.save (b : Block) : String := b.toJson.pretty

/-- Reads a block back from saved text. -/
def Block.load (text : String) : Except String Block :=
  loadEntity "Block" Block.shape Block.ofDatum text

end WorkLedger
