import WorkLedger.Text.Utf8

/-!
# Canonical bytes

The byte form that every ledger hash covers: integers in fixed width, least significant byte
first (32 or 64 bits, signed ones in two's complement), and text as its 64-bit UTF-8 length
followed by the UTF-8 bytes. Records are their fields one after the other, with nothing
between them. Writing builds a `ByteArray`; reading consumes a list of bytes and leaves what
follows, so a record can be read from the front of a longer input.
-/

namespace WorkLedger.Canonical

/-- The `width` bytes of `n` modulo `2^(8·width)`, least significant first. -/
def littleEndian (width : Nat) (n : Nat) : List UInt8 :=
  (List.range width).map fun i => (n / Nat.pow 256 i).toUInt8

/-- A 32-bit word. -/
def u32 (n : UInt32) : ByteArray := ⟨(littleEndian 4 n.toNat).toArray⟩

/-- A 64-bit word. -/
def u64 (n : UInt64) : ByteArray := ⟨(littleEndian 8 n.toNat).toArray⟩

/-- A signed 64-bit word in two's complement. -/
def i64 (n : Int64) : ByteArray := u64 n.toUInt64

/-- Text: its UTF-8 length as a 64-bit word, then its UTF-8 bytes. -/
def text (s : String) : ByteArray :=
  let body := s.toUTF8
  u64 body.size.toUInt64 ++ body

/-- Why bytes are not the canonical form of a value. -/
inductive DecodeError where
  /-- The input ends inside a fixed-width integer or a length. -/
  | unexpectedEnd
  /-- A length announces more bytes than remain. -/
  | truncated
  /-- Text bytes that are not UTF-8. -/
  | invalidUtf8 (e : Text.Utf8.Error)
  /-- A field's own text form is refused; carries that field's message. -/
  | field (message : String)
  deriving DecidableEq, Repr

/-- The message of a decoding failure. -/
def DecodeError.message : DecodeError → String
  | .unexpectedEnd => "io error: unexpected end of file"
  | .truncated => "io error: "
  | .invalidUtf8 e => "string is not valid utf8: " ++ e.message
  | .field m => m

/-- A reader consumes bytes from the front of the input. -/
abbrev Reader := StateT (List UInt8) (Except DecodeError)

/-- The little-endian value of some bytes. -/
def valueOf (bytes : List UInt8) : Nat := bytes.foldr (fun b acc => b.toNat + 256 * acc) 0

/-- Takes exactly `n` bytes for a fixed-width integer. -/
def takeFixed (n : Nat) : Reader (List UInt8) := fun input =>
  if n ≤ input.length then .ok (input.take n, input.drop n) else .error .unexpectedEnd

/-- Reads a 32-bit word. -/
def readU32 : Reader UInt32 := do
  let bytes ← takeFixed 4
  pure (valueOf bytes).toUInt32

/-- Reads a 64-bit word. -/
def readU64 : Reader UInt64 := do
  let bytes ← takeFixed 8
  pure (valueOf bytes).toUInt64

/-- Reads a signed 64-bit word. -/
def readI64 : Reader Int64 := do
  let w ← readU64
  pure w.toInt64

/-- Reads text: a 64-bit length, then that many bytes of UTF-8. -/
def readText : Reader String := do
  let n ← readU64
  let input ← get
  if input.length < n.toNat then throw .truncated
  set (input.drop n.toNat)
  match Text.Utf8.decode (input.take n.toNat) with
  | .ok s => pure s
  | .error e => throw (.invalidUtf8 e)

/-- Runs a reader on the front of some bytes, ignoring what it leaves. -/
def decode {α : Type} (r : Reader α) (bytes : ByteArray) : Except DecodeError α :=
  (fun p => p.1) <$> r.run bytes.toList

end WorkLedger.Canonical
