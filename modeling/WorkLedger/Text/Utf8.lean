/-!
# UTF-8 validation

Decodes bytes that are well-formed UTF-8 (RFC 3629: no overlong forms, no surrogates, nothing
above U+10FFFF). A failure reports how many bytes were valid and the length of the bad
sequence, or none when the input ends inside a sequence.
-/

namespace WorkLedger.Text.Utf8

/-- Where decoding stopped: `validUpTo` bytes are well-formed, and the next `errorLength` bytes
form no character (`none`: the input ends first). -/
structure Error where
  validUpTo : Nat
  errorLength : Option Nat
  deriving DecidableEq, Repr

/-- The message of a UTF-8 failure. -/
def Error.message (e : Error) : String :=
  match e.errorLength with
  | some n =>
    "invalid utf-8 sequence of " ++ toString n ++ " bytes from index " ++ toString e.validUpTo
  | none => "incomplete utf-8 byte sequence from index " ++ toString e.validUpTo

/-- Whether a byte continues a sequence. -/
def isTail (b : UInt8) : Bool := 0x80 ≤ b && b ≤ 0xBF

/-- Whether the second byte is allowed after the first of a three- or four-byte sequence. -/
def secondAllowed (first second : UInt8) : Bool :=
  if first = 0xE0 then 0xA0 ≤ second && second ≤ 0xBF
  else if first = 0xED then 0x80 ≤ second && second ≤ 0x9F
  else if first = 0xF0 then 0x90 ≤ second && second ≤ 0xBF
  else if first = 0xF4 then 0x80 ≤ second && second ≤ 0x8F
  else isTail second

/-- The length of the sequence a leading byte announces, zero for a byte that cannot lead. -/
def width (b : UInt8) : Nat :=
  if b < 0x80 then 1
  else if b < 0xC2 then 0
  else if b < 0xE0 then 2
  else if b < 0xF0 then 3
  else if b < 0xF5 then 4
  else 0

/-- The low six bits of a continuation byte. -/
def tailBits (b : UInt8) : Nat := (b &&& 0x3F).toNat

/-- The character that leading byte `b` starts with the bytes `rest` after it, and how many of
them it takes; or the length of the bad sequence (`none`: the bytes end first). -/
def step (b : UInt8) (rest : List UInt8) : Except (Option Nat) (Char × Nat) :=
  match width b, rest with
  | 1, _ => .ok (Char.ofNat b.toNat, 0)
  | 2, t :: _ =>
    if isTail t then .ok (Char.ofNat ((b &&& 0x1F).toNat * 64 + tailBits t), 1)
    else .error (some 1)
  | 3, s :: t :: _ =>
    if !secondAllowed b s then .error (some 1)
    else if isTail t then .ok (Char.ofNat ((b &&& 0x0F).toNat * 4096 + tailBits s * 64 + tailBits t), 2)
    else .error (some 2)
  | 3, [s] => if secondAllowed b s then .error none else .error (some 1)
  | 4, s :: t :: u :: _ =>
    if !secondAllowed b s then .error (some 1)
    else if !isTail t then .error (some 2)
    else if isTail u then
      .ok (Char.ofNat ((b &&& 0x07).toNat * 262144 + tailBits s * 4096 + tailBits t * 64 +
        tailBits u), 3)
    else .error (some 3)
  | 4, [s, t] =>
    if !secondAllowed b s then .error (some 1)
    else if !isTail t then .error (some 2)
    else .error none
  | 4, [s] => if secondAllowed b s then .error none else .error (some 1)
  | 2, [] | 3, [] | 4, [] => .error none
  | _, _ => .error (some 1)

/-- Decodes the characters from byte offset `offset`, or reports the first bad sequence. -/
def decodeChars (bytes : List UInt8) (offset : Nat) : Except Error (List Char) :=
  match bytes with
  | [] => .ok []
  | b :: rest =>
    match step b rest with
    | .error len => .error ⟨offset, len⟩
    | .ok (c, k) => (c :: ·) <$> decodeChars (rest.drop k) (offset + k + 1)
termination_by bytes.length
decreasing_by simp only [List.length_drop, List.length_cons]; omega

/-- The text of well-formed UTF-8 bytes. -/
def decode (bytes : List UInt8) : Except Error String :=
  String.ofList <$> decodeChars bytes 0

end WorkLedger.Text.Utf8
