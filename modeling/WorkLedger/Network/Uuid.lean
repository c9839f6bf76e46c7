import WorkLedger.Digest.Hex

/-!
# Identifiers

A ping carries a 128-bit identifier, written as 32 hexadecimal digits in five hyphenated groups
of 8, 4, 4, 4 and 12 digits. Reading also accepts the digits without hyphens (the simple form),
the hyphenated form in braces, and the hyphenated form after `urn:uuid:` in any mix of cases.

Text that is none of these is refused with the first thing wrong with it. Text longer than
the longest form (45 bytes) has the wrong length. Text as long as one of the forms is examined
as that form: its digits and hyphens, with offsets counted inside the braces or after the
prefix. Other text is examined whole, inside braces around it or after the prefix if it has
them, with offsets counted from the start of the text. In what is examined, the first character
that is neither a digit nor a hyphen is named with its byte offset; then plain text without
hyphens, taken for the simple form unless it is 36 bytes long, has the wrong length; text with
other than four hyphens has the wrong number of groups; and otherwise the first group out of
place is named, the last one measured to the end of the whole text.
-/

namespace WorkLedger

/-- A 128-bit identifier, as its sixteen bytes. -/
structure Uuid where
  bytes : List UInt8
  deriving DecidableEq, Inhabited

namespace Uuid

/-- Why a text is not an identifier. -/
inductive Error where
  /-- A character that is neither a hexadecimal digit nor a hyphen, at this byte offset. -/
  | invalidCharacter (c : Char) (offset : Nat)
  /-- The text, of this length in bytes, is not as long as its form. -/
  | length (length : Nat)
  /-- Not five groups. -/
  | groupCount (count : Nat)
  /-- Group `group` does not have its length. -/
  | groupLength (group : Nat) (length : Nat)

/-- The digits of each group. -/
def groupLengths : List Nat := [8, 4, 4, 4, 12]

/-- Where each group starts in the hyphenated form. -/
def groupStarts : List Nat := [0, 9, 14, 19, 24]

/-- The reason, in words. -/
def Error.message : Error → String
  | .invalidCharacter c i =>
    "invalid character: found \x60" ++ String.singleton c ++ "\x60 at " ++ toString i
  | .length n => "invalid length: found " ++ toString n
  | .groupCount n => "invalid group count: expected 5, found " ++ toString n
  | .groupLength g n => "invalid group length in group " ++ toString g ++ ": expected " ++
      toString (groupLengths.getD g 0) ++ ", found " ++ toString n

/-- The bytes of an even run of hexadecimal digits. -/
def bytesOfDigits : List Char → Option (List UInt8)
  | a :: b :: rest => do
    let hi ← Hex.digitValue? a.toNat.toUInt8
    let lo ← Hex.digitValue? b.toNat.toUInt8
    let tail ← bytesOfDigits rest
    pure ((hi * 16 + lo) :: tail)
  | [] => some []
  | [_] => none

/-- The bytes of the hyphenated form, if the hyphens stand where they belong. -/
def ofHyphenated (cs : List Char) : Option (List UInt8) :=
  if cs.length = 36 ∧ cs[8]? = some '-' ∧ cs[13]? = some '-' ∧ cs[18]? = some '-' ∧
      cs[23]? = some '-' then
    bytesOfDigits (cs.filter (· ≠ '-'))
  else none

/-- Whether a text starts with the `urn:uuid:` prefix, in any mix of cases. -/
def hasUrnPrefix (cs : List Char) : Bool :=
  (cs.take 9).map Char.toLower == "urn:uuid:".toList

/-- Whether a text stands in braces. -/
def isBraced (cs : List Char) : Bool :=
  2 ≤ cs.length && cs.head? == some '\x7b' && cs.getLast? == some '\x7d'

/-- The bytes of one of the accepted forms. -/
def ofForm (cs : List Char) : Option (List UInt8) :=
  match cs.length with
  | 32 => bytesOfDigits cs
  | 36 => ofHyphenated cs
  | 38 => if isBraced cs then ofHyphenated ((cs.drop 1).take 36) else none
  | 45 => if hasUrnPrefix cs then ofHyphenated (cs.drop 9) else none
  | _ => none

/-- Whether a character may stand in an identifier's text. -/
def isDigitOrHyphen (c : Char) : Bool := c = '-' ∨ c.isDigit ∨ ('a' ≤ c ∧ c ≤ 'f') ∨ ('A' ≤ c ∧ c ≤ 'F')

/-- The longest accepted form, in bytes. -/
def longestForm : Nat := 45

/-- What is examined of a text that is not an identifier: the characters, the offset added to
theirs, whether the text is taken for the simple form, and the length the last group is
measured against. -/
structure Examined where
  chars : List Char
  offset : Nat
  simple : Bool
  length : Nat

/-- What is examined of a text (see the module comment). -/
def examine (text : String) : Examined :=
  let cs := text.toList
  let n := text.utf8ByteSize
  if n = 32 then ⟨cs, 0, true, n⟩
  else if n = 36 then ⟨cs, 0, false, n⟩
  else if n = 38 && isBraced cs then ⟨(cs.drop 1).dropLast, 0, false, 36⟩
  else if n = 45 && hasUrnPrefix cs then ⟨cs.drop 9, 0, false, 36⟩
  else if isBraced cs then ⟨(cs.drop 1).dropLast, 1, false, n⟩
  else if hasUrnPrefix cs then ⟨cs.drop 9, 9, false, n⟩
  else ⟨cs, 0, true, n⟩

/-- The first thing wrong with a text that is not one of the accepted forms. -/
def diagnose (text : String) : Error :=
  if longestForm < text.utf8ByteSize then .length text.utf8ByteSize
  else
    let e := examine text
    -- byte offsets of the characters examined
    let offsets := (e.chars.foldl (fun (acc : List Nat × Nat) c => (acc.2 :: acc.1, acc.2 + c.utf8Size))
      ([], 0)).1.reverse
    let indexed := e.chars.zip offsets
    match indexed.find? (fun p => !isDigitOrHyphen p.1) with
    | some (c, i) => .invalidCharacter c (i + e.offset)
    | none =>
      let hyphens := (indexed.filter (·.1 = '-')).map (·.2)
      if hyphens.isEmpty ∧ e.simple then .length text.utf8ByteSize
      else if hyphens.length ≠ 4 then .groupCount (hyphens.length + 1)
      else
        let bounds := hyphens.zip groupStarts
        match bounds.zipIdx.find? (fun ((h, _), g) => h + 1 ≠ groupStarts.getD (g + 1) 0) with
        | some ((h, s), g) => .groupLength g (h - s)
        | none => .groupLength 4 (e.length - 24)

/-- Reads an identifier from one of its accepted forms. -/
def parse (text : String) : Except Error Uuid :=
  match ofForm text.toList with
  | some b => .ok ⟨b⟩
  | none => .error (diagnose text)

/-- The hyphenated lowercase form. -/
def toText (u : Uuid) : String :=
  let digits := (Hex.encode u.bytes).toList
  let groups := [digits.take 8, (digits.drop 8).take 4, (digits.drop 12).take 4,
    (digits.drop 16).take 4, digits.drop 20]
  "-".intercalate (groups.map String.ofList)

end Uuid

end WorkLedger
