import WorkLedger.Text.Quoted

/-!
# Hexadecimal bytes

Bytes are written as two lowercase hexadecimal digits each. Reading accepts either case; a text
of odd length is refused before any digit is looked at, and otherwise the first byte of the
text that is no hexadecimal digit is reported with its position.
-/

namespace WorkLedger.Hex

/-- Why a text is not hexadecimal bytes. -/
inductive Error where
  /-- The text has an odd number of bytes. -/
  | oddLength
  /-- The byte at `position` is no hexadecimal digit. -/
  | invalidCharacter (byte : UInt8) (position : Nat)
  deriving DecidableEq, Repr

/-- The message of a hex failure; the offending byte is shown as the character with that code,
quoted. -/
def Error.message : Error → String
  | .oddLength => "Odd number of digits"
  | .invalidCharacter b i =>
    "Invalid character " ++ Text.quoteChar (Char.ofNat b.toNat) ++ " at position " ++ toString i

/-- The lowercase digit of a value below sixteen. -/
def digitChar (v : UInt8) : Char :=
  if v < 10 then Char.ofNat (48 + v.toNat) else Char.ofNat (87 + v.toNat)

/-- The two digits of a byte. -/
def byteChars (b : UInt8) : List Char := [digitChar (b >>> 4), digitChar (b &&& 15)]

/-- The lowercase hexadecimal text of some bytes. -/
def encode (bytes : List UInt8) : String := String.ofList (bytes.flatMap byteChars)

/-- The value of a hexadecimal digit byte of either case. -/
def digitValue? (b : UInt8) : Option UInt8 :=
  if 48 ≤ b ∧ b ≤ 57 then some (b - 48)
  else if 65 ≤ b ∧ b ≤ 70 then some (b - 55)
  else if 97 ≤ b ∧ b ≤ 102 then some (b - 87)
  else none

/-- Reads byte pairs from position `i` on. -/
def decodePairs : List UInt8 → Nat → Except Error (List UInt8)
  | hi :: lo :: rest, i =>
    match digitValue? hi with
    | none => .error (.invalidCharacter hi i)
    | some h =>
      match digitValue? lo with
      | none => .error (.invalidCharacter lo (i + 1))
      | some l => ((h <<< 4 ||| l) :: ·) <$> decodePairs rest (i + 2)
  | _, _ => .ok []

/-- The bytes written by a hexadecimal text. -/
def decode (text : String) : Except Error (List UInt8) :=
  let raw := text.toUTF8.toList
  if raw.length % 2 = 1 then .error .oddLength else decodePairs raw 0

end WorkLedger.Hex
