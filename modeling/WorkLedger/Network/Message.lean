import WorkLedger.Ledger.Compact
import WorkLedger.Network.Uuid

/-!
# Messages between nodes

Nodes ask each other for blocks, heads and membership proofs, announce blocks and transactions,
say whether they took them, and ping. A message is written as JSON: a variant without content
as its name in a string, any other as an object with the variant's name as its single key.
-/

namespace WorkLedger

open Json

/-- A message between nodes. -/
inductive Message where
  | fetchBlockByNumber (number : UInt64)
  | fetchBlockByHash (hash : Digest)
  | fetchHead
  /-- A membership proof for `transaction` in the block numbered `number`. -/
  | fetchCompactBlock (number : UInt64) (transaction : Transaction)
  | blockReply (block : Option Block)
  | headReply (header : Option Header)
  | compactBlockReply (compact : Option CompactBlock)
  | newBlock (block : Block)
  | newTransaction (transaction : Transaction)
  | blockAccepted
  | blockRejected (reason : String)
  | transactionAccepted
  | transactionRejected (reason : String)
  | ping (id : Uuid)
  | pong (id : Uuid)
  deriving BEq, Inhabited

namespace Message

/-- An identifier as its hyphenated text. -/
def uuidShape : Shape :=
  .parsed "a formatted UUID string" true fun s =>
    match Uuid.parse s with
    | .ok u => .ok (.bytes u.bytes)
    | .error e => .error ("UUID parsing failed: " ++ e.message)

/-- The variants in declaration order, with the shape of their content. -/
def cases : List (String × Shape) :=
  [("FetchBlockByNumber", .unsigned 64), ("FetchBlockByHash", digestShape), ("FetchHead", .unit),
   ("FetchCompactBlock", .variantRecord "Message::FetchCompactBlock"
      [("block_number", .unsigned 64), ("transaction", Transaction.shape)]),
   ("BlockReply", .optional Block.shape), ("HeadReply", .optional Header.shape),
   ("CompactBlockReply", .optional CompactBlock.shape), ("NewBlock", Block.shape),
   ("NewTransaction", Transaction.shape), ("BlockAccepted", .unit), ("BlockRejected", .text),
   ("TransactionAccepted", .unit), ("TransactionRejected", .text), ("Ping", uuidShape),
   ("Pong", uuidShape)]

def shape : Shape := .choice "Message" cases

/-- The optional value of a datum. -/
def optionOf {α : Type} (f : Datum → α) : Datum → Option α
  | .present d => some (f d)
  | _ => none

/-- The message a datum of `shape` stands for. -/
def ofDatum : Datum → Message
  | .variant i d =>
    match i with
    | 0 => .fetchBlockByNumber d.natD.toUInt64
    | 1 => .fetchBlockByHash ⟨d.bytesD⟩
    | 2 => .fetchHead
    | 3 => .fetchCompactBlock (d.field 0).natD.toUInt64 (Transaction.ofDatum (d.field 1))
    | 4 => .blockReply (optionOf Block.ofDatum d)
    | 5 => .headReply (optionOf Header.ofDatum d)
    | 6 => .compactBlockReply (optionOf CompactBlock.ofDatum d)
    | 7 => .newBlock (Block.ofDatum d)
    | 8 => .newTransaction (Transaction.ofDatum d)
    | 9 => .blockAccepted
    | 10 => .blockRejected d.textD
    | 11 => .transactionAccepted
    | 12 => .transactionRejected d.textD
    | 13 => .ping ⟨d.bytesD⟩
    | _ => .pong ⟨d.bytesD⟩
  | _ => .fetchHead

/-- A variant with content. -/
def tagged (name : String) (content : Json) : Json := .obj [(name, content)]

/-- An optional value, `null` when absent. -/
def optionJson {α : Type} (f : α → Json) : Option α → Json
  | some a => f a
  | none => .null

/-- The JSON form of a message. -/
def toJson : Message → Json
  | .fetchBlockByNumber n => tagged "FetchBlockByNumber" (.int n.toNat)
  | .fetchBlockByHash h => tagged "FetchBlockByHash" (.str h.hex)
  | .fetchHead => .str "FetchHead"
  | .fetchCompactBlock n t => tagged "FetchCompactBlock"
      (.obj [("block_number", .int n.toNat), ("transaction", t.toJson)])
  | .blockReply b => tagged "BlockReply" (optionJson Block.toJson b)
  | .headReply h => tagged "HeadReply" (optionJson Header.toJson h)
  | .compactBlockReply c => tagged "CompactBlockReply" (optionJson CompactBlock.toJson c)
  | .newBlock b => tagged "NewBlock" b.toJson
  | .newTransaction t => tagged "NewTransaction" t.toJson
  | .blockAccepted => .str "BlockAccepted"
  | .blockRejected r => tagged "BlockRejected" (.str r)
  | .transactionAccepted => .str "TransactionAccepted"
  | .transactionRejected r => tagged "TransactionRejected" (.str r)
  | .ping u => tagged "Ping" (.str u.toText)
  | .pong u => tagged "Pong" (.str u.toText)

/-- The bytes a message is sent as: its compact JSON text. -/
def encode (m : Message) : ByteArray := m.toJson.compact.toUTF8

/-- Reads a message from the bytes of its JSON text. -/
def decode (bytes : ByteArray) : Except ReadError Message :=
  ofDatum <$> shape.readText bytes .slice

/-- Reads a message from a JSON value. -/
def ofJson (j : Json) : Except String Message := ofDatum <$> shape.ofJson j

end Message

end WorkLedger
