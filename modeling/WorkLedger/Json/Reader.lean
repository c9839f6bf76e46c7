import WorkLedger.Json.Value
import WorkLedger.Json.Number
import WorkLedger.Text.Quoted
import WorkLedger.Text.Utf8

/-!
# Reading JSON text

A cursor over the bytes of a JSON text, and the lexical pieces of reading it: blanks, literal
words, strings with their escapes, numbers, and skipping a whole value.

Errors name the line and the column where reading stopped. A column counts the bytes of its
line before that point. When the text arrives as one slice, the point is the next unread
byte, and for an error about the byte just looked at, the byte after it. When the text arrives
as a stream read byte by byte, the point is after every byte pulled from the stream,
including one that was only looked at: the two differ after a number or a blank, whose end is
known only by looking one byte further.

A value that is skipped rather than read is checked for its form only: a skipped number may be
of any size, and a skipped string may hold any bytes and any `\u` escapes, paired or not.
Numbers that are read follow `Json.Number`.
-/

namespace WorkLedger.Json

/-- How the text reaches the reader. -/
inductive Source where
  /-- The whole text at once. -/
  | slice
  /-- A stream, pulled one byte at a time. -/
  | stream
  deriving DecidableEq, Repr

/-- A position in the text being read. -/
structure Cursor where
  bytes : ByteArray
  index : Nat
  /-- For a stream: the byte at `index` has been pulled to look at it. -/
  peeked : Bool
  source : Source

/-- A reading failure: the message and, once known, the line and column. -/
structure ReadError where
  message : String
  position : Option (Nat × Nat)
  deriving DecidableEq, Repr

/-- The text of a reading failure. -/
def ReadError.render (e : ReadError) : String :=
  match e.position with
  | some (line, column) => e.message ++ " at line " ++ toString line ++ " column " ++ toString column
  | none => e.message

/-- A failure whose position is not known yet. -/
def ReadError.custom (message : String) : ReadError := ⟨message, none⟩

/-- Reading with a cursor; a failure keeps the cursor where it happened. -/
abbrev ReadM := StateT Cursor (Except (ReadError × Cursor))

namespace Cursor

/-- A cursor at the start of a text. -/
def start (bytes : ByteArray) (source : Source) : Cursor := ⟨bytes, 0, false, source⟩

/-- The line and column of byte offset `i`. -/
def lineColumn (c : Cursor) (i : Nat) : Nat × Nat :=
  let before := (c.bytes.extract 0 i).toList
  let lines := before.count 10
  let lastBreak := before.length - (before.reverse.findIdx? (· == 10)).getD before.length
  (lines + 1, i - lastBreak)

/-- The point of an error about what has been read. -/
def errorPoint (c : Cursor) : Nat × Nat :=
  match c.source with
  | .slice => c.lineColumn c.index
  | .stream => c.lineColumn (c.index + if c.peeked then 1 else 0)

/-- The point of an error about the byte just looked at. -/
def peekPoint (c : Cursor) : Nat × Nat :=
  match c.source with
  | .slice => c.lineColumn (min (c.index + 1) c.bytes.size)
  | .stream => c.errorPoint

end Cursor

/-- Fails with `message` at the point of what has been read. -/
def failRead {α : Type} (message : String) : ReadM α := do
  let c ← get
  throw (⟨message, some c.errorPoint⟩, c)

/-- Fails with `message` at the byte just looked at. -/
def failPeek {α : Type} (message : String) : ReadM α := do
  let c ← get
  throw (⟨message, some c.peekPoint⟩, c)

/-- Fails with an error as it is, with or without a position. -/
def failWith {α : Type} (e : ReadError) : ReadM α := do
  let c ← get
  throw (e, c)

/-- Gives a position-less error the point of what has been read. -/
def fixPosition (e : ReadError) (c : Cursor) : ReadError :=
  match e.position with
  | some _ => e
  | none => ⟨e.message, some c.errorPoint⟩

/-- Runs `r`; a position-less failure gets the point where the cursor is after `finish` has run
from where the failure happened. -/
def withFixedPosition {α : Type} (r : ReadM α) (finish : ReadM Unit) : ReadM α := do
  let start ← get
  match r.run start with
  | .ok (a, c) => set c; pure a
  | .error (e, c) =>
    let c' := match finish.run c with
      | .ok (_, c') => c'
      | .error (_, c') => c'
    throw (fixPosition e c', c')

/-- Looks at the next byte without consuming it. -/
def peek : ReadM (Option UInt8) := do
  let c ← get
  if h : c.index < c.bytes.size then
    set { c with peeked := true }
    pure (some c.bytes[c.index])
  else pure none

/-- Consumes the byte looked at. -/
def eat : ReadM Unit := modify fun c => { c with index := c.index + 1, peeked := false }

/-- Consumes and returns the next byte. -/
def next : ReadM (Option UInt8) := do
  let c ← get
  if h : c.index < c.bytes.size then
    set { c with index := c.index + 1, peeked := false }
    pure (some c.bytes[c.index])
  else pure none

/-- The error messages of JSON text, by cause. -/
def eofValue : String := "EOF while parsing a value"
def eofList : String := "EOF while parsing a list"
def eofObject : String := "EOF while parsing an object"
def eofString : String := "EOF while parsing a string"
def expectedColon : String := "expected `:`"
def expectedListCommaOrEnd : String := "expected `,` or `]`"
def expectedObjectCommaOrEnd : String := "expected `,` or `\x7d`"
def expectedIdent : String := "expected ident"
def expectedValue : String := "expected value"
def invalidEscape : String := "invalid escape"
def invalidNumber : String := "invalid number"
def numberOutOfRange : String := "number out of range"
def invalidCodePoint : String := "invalid unicode code point"
def controlCharacter : String := "control character (\\u0000-\\u001F) found while parsing a string"
def keyMustBeString : String := "key must be a string"
def loneSurrogate : String := "lone leading surrogate in hex escape"
def trailingComma : String := "trailing comma"
def trailingCharacters : String := "trailing characters"
def unexpectedEndOfEscape : String := "unexpected end of hex escape"
def recursionLimit : String := "recursion limit exceeded"

/-- Whether a byte is a JSON blank. -/
def isBlank (b : UInt8) : Bool := b == 32 || b == 10 || b == 9 || b == 13

/-- Skips blanks, at most `fuel` of them, and looks at the byte after them. -/
def skipBlanksFuel : Nat → ReadM (Option UInt8)
  | 0 => peek
  | fuel + 1 => do
    match ← peek with
    | some b => if isBlank b then do eat; skipBlanksFuel fuel else pure (some b)
    | none => pure none

/-- Skips blanks and looks at the byte after them. -/
def skipBlanks : ReadM (Option UInt8) := do
  let c ← get
  skipBlanksFuel (c.bytes.size - c.index)

/-- Consumes the rest of a literal word whose first byte has been eaten. -/
def expectWord (rest : List UInt8) : ReadM Unit :=
  rest.forM fun expected => do
    match ← next with
    | none => failRead eofValue
    | some b => if b == expected then pure () else failRead expectedIdent

/-- The value of a hexadecimal digit. -/
def hexValue? (b : UInt8) : Option Nat :=
  if 48 ≤ b ∧ b ≤ 57 then some (b - 48).toNat
  else if 65 ≤ b ∧ b ≤ 70 then some (b - 55).toNat
  else if 97 ≤ b ∧ b ≤ 102 then some (b - 87).toNat
  else none

/-- Reads the four hexadecimal digits of a `\u` escape. -/
def readHexEscape : ReadM Nat := do
  let c ← get
  if c.index + 4 ≤ c.bytes.size then
    let digits := (c.bytes.extract c.index (c.index + 4)).toList
    set { c with index := c.index + 4, peeked := false }
    match digits.mapM hexValue? with
    | some ds => pure (ds.foldl (fun acc d => acc * 16 + d) 0)
    | none => failRead invalidEscape
  else
    set { c with index := c.bytes.size, peeked := false }
    failRead eofString

/-- The UTF-8 bytes of a code point. -/
def utf8Bytes (n : Nat) : List UInt8 := (Char.ofNat n).toString.toUTF8.toList

/-- Reads the escape after a backslash, returning the bytes it stands for. -/
def readEscape : ReadM (List UInt8) := do
  match ← next with
  | none => failRead eofString
  | some b =>
    if b == 34 then pure [34]
    else if b == 92 then pure [92]
    else if b == 47 then pure [47]
    else if b == 98 then pure [8]
    else if b == 102 then pure [12]
    else if b == 110 then pure [10]
    else if b == 114 then pure [13]
    else if b == 116 then pure [9]
    else if b == 117 then do
      let n ← readHexEscape
      if 0xDC00 ≤ n ∧ n ≤ 0xDFFF then failRead loneSurrogate
      else if n < 0xD800 ∨ 0xDBFF < n then pure (utf8Bytes n)
      else do
        -- a leading surrogate must be followed by an escaped trailing one
        match ← next with
        | none => failRead eofString
        | some b1 =>
          if b1 != 92 then failRead unexpectedEndOfEscape else
          match ← next with
          | none => failRead eofString
          | some b2 =>
            if b2 != 117 then failRead unexpectedEndOfEscape else do
            let n2 ← readHexEscape
            if n2 < 0xDC00 ∨ 0xDFFF < n2 then failRead loneSurrogate
            else pure (utf8Bytes (0x10000 + (n - 0xD800) * 0x400 + (n2 - 0xDC00)))
    else failRead invalidEscape

/-- The bytes not yet read. -/
def remaining : ReadM Nat := do
  let c ← get
  pure (c.bytes.size - c.index)

/-- Whether a byte is a decimal digit. -/
def isDigit (b : UInt8) : Bool := 48 ≤ b && b ≤ 57

/-- Reads string bytes up to the closing quote (the opening one has been eaten), at most `fuel`
pieces. The closing quote is looked at but not taken. -/
def readStringBytes : Nat → List UInt8 → ReadM (List UInt8)
  | 0, _ => failRead eofString
  | fuel + 1, acc => do
    match ← peek with
    | none => failRead eofString
    | some b =>
      if b == 34 then pure acc.reverse
      else do
        eat
        if b == 92 then do
          let bytes ← readEscape
          readStringBytes fuel (bytes.reverse ++ acc)
        else if b < 32 then failRead controlCharacter
        else readStringBytes fuel (b :: acc)

/-- Reads a string whose opening quote has been eaten. Its bytes must be UTF-8, which is known
once the closing quote is in view: a slice is faulted before that quote, a stream after it. -/
def readString : ReadM String := do
  let bytes ← readStringBytes ((← remaining) + 1) []
  match Text.Utf8.decode bytes with
  | .ok s => do eat; pure s
  | .error _ => failRead invalidCodePoint

/-- Skips the escape after a backslash, checking only its form: a `\u` escape needs four
hexadecimal digits, whatever code point they make. -/
def skipEscape : ReadM Unit := do
  match ← next with
  | none => failRead eofString
  | some b =>
    if b == 117 then do let _ ← readHexEscape; pure ()
    else if [34, 92, 47, 98, 102, 110, 114, 116].contains b then pure ()
    else failRead invalidEscape

/-- Skips string bytes up to and with the closing quote, at most `fuel` pieces, checking escapes
and control bytes only: skipped bytes need not be UTF-8. -/
def skipStringBytes : Nat → ReadM Unit
  | 0 => failRead eofString
  | fuel + 1 => do
    match ← peek with
    | none => failRead eofString
    | some b =>
      if b == 34 then eat
      else if b == 92 then do eat; skipEscape; skipStringBytes fuel
      else if b < 32 then failRead controlCharacter
      else do eat; skipStringBytes fuel

/-- Skips a string whose opening quote has been eaten. -/
def skipString : ReadM Unit := do
  skipStringBytes ((← remaining) + 1)

/-- Eats digits while they come, at most `fuel`, and counts them. -/
def countDigits : Nat → Nat → ReadM Nat
  | 0, count => pure count
  | fuel + 1, count => do
    match ← peek with
    | some b => if isDigit b then do eat; countDigits fuel (count + 1) else pure count
    | none => pure count

/-- Appends digits to a significand while they come and it stays within 64 bits, at most
`fuel`: the significand, how many digits it took, and whether a digit was left for being too
many. -/
def readSignificand : Nat → Nat → Nat → ReadM (Nat × Nat × Bool)
  | 0, acc, count => pure (acc, count, false)
  | fuel + 1, acc, count => do
    match ← peek with
    | some b =>
      if isDigit b then
        let d := (b - 48).toNat
        if Number.overflows acc d Number.significandMax then pure (acc, count, true)
        else do eat; readSignificand fuel (acc * 10 + d) (count + 1)
      else pure (acc, count, false)
    | none => pure (acc, count, false)

/-- Appends the digits of an exponent while they come, at most `fuel`; none once one takes it
past 32 signed bits (that digit is eaten). -/
def readExponentDigits : Nat → Nat → ReadM (Option Nat)
  | 0, acc => pure (some acc)
  | fuel + 1, acc => do
    match ← peek with
    | some b =>
      if isDigit b then do
        eat
        let d := (b - 48).toNat
        if Number.overflows acc d Number.exponentMax then pure none
        else readExponentDigits fuel (acc * 10 + d)
      else pure (some acc)
    | none => pure (some acc)

/-- The double of `significand · 10^exponent` with its sign; one too large fails where reading
stands. -/
def finishFloat (negative : Bool) (significand : Nat) (exponent : Int) : ReadM Float :=
  match Number.scale significand exponent with
  | some f => pure (if negative then -f else f)
  | none => failRead numberOutOfRange

/-- Reads an exponent after `e` or `E` (not yet eaten) to scale `significand · 10^start`. An
exponent past 32 signed bits fails when it would make a nonzero significand larger, and
otherwise gives zero. -/
def readExponent (negative : Bool) (significand : Nat) (start : Int) : ReadM Float := do
  eat
  let up ← match ← peek with
    | some 43 => do eat; pure true
    | some 45 => do eat; pure false
    | _ => pure true
  match ← next with
  | none => failRead eofValue
  | some b =>
    if isDigit b then do
      match ← readExponentDigits (← remaining) (b - 48).toNat with
      | some e =>
        finishFloat negative significand (Number.clampExponent (if up then start + e else start - e))
      | none =>
        if significand ≠ 0 && up then failRead numberOutOfRange
        else do
          let _ ← countDigits (← remaining) 0
          pure (if negative then -0.0 else 0.0)
    else failRead invalidNumber

/-- Reads the fraction after `.` (not yet eaten) of `significand · 10^exponent`, and an
exponent after it. Digits past 64 bits of significand are dropped; at least one digit must
follow the point. -/
def readFraction (negative : Bool) (significand : Nat) (exponent : Int) : ReadM Float := do
  eat
  let (significand, count, full) ← readSignificand (← remaining) significand 0
  if full then
    let _ ← countDigits (← remaining) 0
  else if count = 0 then
    match ← peek with
    | some _ => failPeek invalidNumber
    | none => failPeek eofValue
  match ← peek with
  | some 101 | some 69 => readExponent negative significand (exponent - count)
  | _ => finishFloat negative significand (exponent - count)

/-- Reads what follows 64 bits of integer digits: each further digit raises the exponent. -/
def readLongInteger (negative : Bool) (significand : Nat) : ReadM Float := do
  let extra ← countDigits (← remaining) 0
  match ← peek with
  | some 46 => readFraction negative significand extra
  | some 101 | some 69 => readExponent negative significand extra
  | _ => finishFloat negative significand extra

/-- Reads what follows the integer digits: a fraction, an exponent, or nothing. -/
def readNumberTail (negative : Bool) (significand : Nat) : ReadM Number := do
  match ← peek with
  | some 46 => Number.float <$> readFraction negative significand 0
  | some 101 | some 69 => Number.float <$> readExponent negative significand 0
  | _ => pure (Number.ofInteger negative significand)

/-- Reads a number whose minus sign, if any, has been eaten. -/
def readNumber (negative : Bool) : ReadM Number := do
  match ← next with
  | none => failRead eofValue
  | some b =>
    if b == 48 then do
      match ← peek with
      | some d => if isDigit d then failPeek invalidNumber else readNumberTail negative 0
      | none => readNumberTail negative 0
    else if isDigit b then do
      let (significand, _, full) ← readSignificand (← remaining) (b - 48).toNat 0
      if full then Number.float <$> readLongInteger negative significand
      else readNumberTail negative significand
    else failRead invalidNumber

/-- Skips an exponent after `e` or `E` (not yet eaten), checking only its form. -/
def skipExponent : ReadM Unit := do
  eat
  match ← peek with
  | some 43 | some 45 => eat
  | _ => pure ()
  match ← next with
  | some b => if isDigit b then do let _ ← countDigits (← remaining) 0 else failRead invalidNumber
  | none => failRead invalidNumber

/-- Skips a number whose minus sign, if any, has been eaten, checking only its form: its size
does not matter. -/
def skipNumber : ReadM Unit := do
  match ← next with
  | some 48 =>
    match ← peek with
    | some d => if isDigit d then failPeek invalidNumber
    | none => pure ()
  | some b => if isDigit b then do let _ ← countDigits (← remaining) 0 else failRead invalidNumber
  | none => failRead invalidNumber
  match ← peek with
  | some 46 =>
    eat
    if (← countDigits (← remaining) 0) = 0 then failPeek invalidNumber
    match ← peek with
    | some 101 | some 69 => skipExponent
    | _ => pure ()
  | some 101 | some 69 => skipExponent
  | _ => pure ()

/-- Why a value is not the one expected, for a type error: the value just looked at is read
(a container is only named). -/
def describeUnexpected : ReadM String := do
  match ← peek with
  | some 110 => do eat; expectWord [117, 108, 108]; pure "null"
  | some 116 => do eat; expectWord [114, 117, 101]; pure "boolean `true`"
  | some 102 => do eat; expectWord [97, 108, 115, 101]; pure "boolean `false`"
  | some 45 => do eat; let n ← readNumber true; pure n.describe
  | some b =>
    if 48 ≤ b ∧ b ≤ 57 then do let n ← readNumber false; pure n.describe
    else if b == 34 then do eat; let s ← readString; pure ("string " ++ Text.quoteString s)
    else if b == 91 then pure "sequence"
    else if b == 123 then pure "map"
    else failPeek expectedValue
  | none => failPeek expectedValue

/-- The type error for the value just looked at, positioned after reading it. -/
def invalidType {α : Type} (expected : String) : ReadM α := do
  let what ← describeUnexpected
  failRead ("invalid type: " ++ what ++ ", expected " ++ expected)

/-- A frame of a container being skipped. -/
inductive Frame where
  | list
  | object
  deriving DecidableEq

/-- Starts the next entry of the open container `frame`: an object entry begins with a key and a
colon. -/
def openEntry (frame : Frame) : ReadM Unit := do
  if frame = .object then do
    match ← skipBlanks with
    | some 34 => eat
    | some _ => failPeek keyMustBeString
    | none => failPeek eofObject
    skipString
    match ← skipBlanks with
    | some 58 => eat
    | some _ => failPeek expectedColon
    | none => failPeek eofObject

/-- Reads one scalar, or opens a container and returns its frame. -/
def skipOne : ReadM (Option Frame) := do
  match ← skipBlanks with
  | some 110 => do eat; expectWord [117, 108, 108]; pure none
  | some 116 => do eat; expectWord [114, 117, 101]; pure none
  | some 102 => do eat; expectWord [97, 108, 115, 101]; pure none
  | some 45 => do eat; skipNumber; pure none
  | some 34 => do eat; skipString; pure none
  | some 91 => do eat; pure (some Frame.list)
  | some 123 => do eat; pure (some Frame.object)
  | some b => if isDigit b then do skipNumber; pure none else failPeek expectedValue
  | none => failPeek eofValue

mutual

/-- Skips values inside the open containers `stack`; `fuel` bounds the steps. -/
def skipFrom : Nat → List Frame → ReadM Unit
  | 0, _ => failPeek eofValue
  | fuel + 1, stack => do
    match ← skipOne with
    | some frame => afterValue fuel (frame :: stack) false
    | none => afterValue fuel stack true

/-- After a value (`afterComma` false: right after a container opened): a comma starts the
next entry, a matching bracket closes the innermost container. -/
def afterValue : Nat → List Frame → Bool → ReadM Unit
  | _, [], _ => pure ()
  | 0, _, _ => failPeek eofValue
  | fuel + 1, frame :: rest, acceptComma => do
    let closing : UInt8 := if frame = .list then 93 else 125
    match ← skipBlanks with
    | some b =>
      if b == 44 && acceptComma then do eat; openEntry frame; skipFrom fuel (frame :: rest)
      else if b == closing then do eat; afterValue fuel rest true
      else if acceptComma then
        failPeek (if frame = .list then expectedListCommaOrEnd else expectedObjectCommaOrEnd)
      else do openEntry frame; skipFrom fuel (frame :: rest)
    | none => failPeek (if frame = .list then eofList else eofObject)

end

/-- Skips one whole value. -/
def skipValue : ReadM Unit := do
  let c ← get
  skipFrom (2 * (c.bytes.size - c.index) + 2) []

end WorkLedger.Json
