import WorkLedger.Toml.Syntax
import WorkLedger.Toml.Value
import WorkLedger.Json.Float

/-!
# The grammar of TOML values and keys

Keys are bare (letters, digits, `-`, `_`) or quoted, and dotted keys join them with `.`. Values
are basic strings (`"..."` with escapes), literal strings (`'...'`), their multi-line forms,
integers (decimal with an optional sign, or `0x`, `0o`, `0b` with digits), floats (a fraction,
an exponent or both, and `inf` and `nan` with an optional sign), booleans, dates and times,
arrays and inline tables. Underscores may stand between two digits of a number.

Each construct commits once its first character shows what it is, so a malformed value is
reported as what it started out to be: an unclosed string as an invalid string, a number with
a stray underscore as an invalid integer. A value that fits no construct is reported as an
invalid string, since a missing quote is the likeliest slip.
-/

namespace WorkLedger.Toml.Grammar

open WorkLedger.Toml.Parser

/-- A bound larger than any input. -/
def unbounded : Nat := Nat.pow 2 64

/-- The character of an ASCII byte. -/
def ascii (c : Char) : UInt8 := c.toNat.toUInt8

def isBlank (b : UInt8) : Bool := b = 32 || b = 9
def isNonAscii (b : UInt8) : Bool := 0x80 ≤ b
def isNonEol (b : UInt8) : Bool := b = 9 || (0x20 ≤ b && b ≤ 0x7E) || isNonAscii b
def isDigit (b : UInt8) : Bool := ascii '0' ≤ b && b ≤ ascii '9'
def isHexDigit (b : UInt8) : Bool :=
  isDigit b || (ascii 'A' ≤ b && b ≤ ascii 'F') || (ascii 'a' ≤ b && b ≤ ascii 'f')
def isBareKeyByte (b : UInt8) : Bool :=
  isDigit b || (ascii 'A' ≤ b && b ≤ ascii 'Z') || (ascii 'a' ≤ b && b ≤ ascii 'z') ||
    b = ascii '-' || b = ascii '_'
/-- Bytes that stand for themselves in a basic string. -/
def isBasicByte (b : UInt8) : Bool :=
  isBlank b || b = 0x21 || (0x23 ≤ b && b ≤ 0x5B) || (0x5D ≤ b && b ≤ 0x7E) || isNonAscii b
/-- Bytes allowed in a literal string. -/
def isLiteralByte (b : UInt8) : Bool :=
  b = 9 || (0x20 ≤ b && b ≤ 0x26) || (0x28 ≤ b && b ≤ 0x7E) || isNonAscii b

/-- The text of bytes read from the source (which is valid UTF-8). -/
def text (bytes : List UInt8) : String := (String.fromUTF8? ⟨bytes.toArray⟩).getD ""

/-- Runs `p` without reading: succeeds where `p` does, at the same place. -/
def lookahead {α : Type} (p : Parser α) : Parser Unit := fun input pos =>
  match p input pos with
  | .ok _ => .ok ((), pos)
  | .error e => .error e

/-- Spaces and tabs. -/
def blanks : Parser Unit := do let _ ← takeWhile 0 unbounded isBlank

/-- A line feed, or a carriage return and a line feed. The first byte is read before it is
judged, so a failure on any other byte stands just after it. -/
def newline : Parser Unit := do
  match ← anyByte with
  | 10 => pure ()
  | 13 => byte 10
  | _ => fail

/-- A comment: `#` and the rest of the line. -/
def comment : Parser Unit := do
  byte (ascii '#')
  let _ ← takeWhile 0 unbounded isNonEol

/-- The end of a line or of the source. -/
def lineEnding : Parser Unit := orElse newline eof

/-- What may follow a value or a header on its line: blanks, a comment, the end of the line. -/
def lineTrailing : Parser Unit := do
  blanks
  let _ ← optional comment
  lineEnding

/-- Blanks and newlines. -/
def blankLines : Parser Unit := do
  let _ ← many (orElse newline (do let _ ← takeWhile 1 unbounded isBlank)) false

/-- A newline, then blanks and newlines. -/
def newlines : Parser Unit := do newline; blankLines

/-- Blanks, newlines and comments, each comment ended by a newline. A carriage return must
start a newline: one that does not fails just after it, as does a comment left without a
newline. -/
def blankLinesAndComments : Parser Unit := fun input pos =>
  let rec go (fuel : Nat) (pos : Nat) : Except Failure (Unit × Nat) :=
    match fuel with
    | 0 => .ok ((), pos)
    | fuel + 1 =>
      match blanks input pos with
      | .error e => .error e
      | .ok ((), pos') =>
        let next : Option (Parser Unit) :=
          match input[pos']? with
          | some 35 => some (do comment; newline)
          | some 10 | some 13 => some newline
          | _ => none
        match next with
        | none => .ok ((), pos')
        | some p =>
          match p input pos' with
          | .error e => .error e
          | .ok ((), pos'') => if pos'' ≤ pos then .ok ((), pos'') else go fuel pos''
  go (input.size - pos + 1) pos

/-! ## Strings -/

/-- The character of a four- or eight-digit escape; a code that is no character is out of
range. -/
def hexEscape (n : Nat) : Parser Char :=
  tryMap (verify (takeWhile 0 n isHexDigit) (·.length = n)) fun digits =>
    let code := digits.foldl (fun acc b =>
      acc * 16 + (if isDigit b then b.toNat - 48 else if b ≤ ascii 'F' then b.toNat - 55
        else b.toNat - 87)) 0
    if code < 0xD800 || (0xDFFF < code && code ≤ 0x10FFFF) then .ok (Char.ofNat code)
    else .error Problem.outOfRange.message

/-- What a backslash stands for in a basic string. -/
def escapeSequence : Parser Char := do
  match ← anyByte with
  | 98 => pure '\x08'
  | 102 => pure '\x0c'
  | 110 => pure '\n'
  | 114 => pure '\r'
  | 116 => pure '\t'
  | 117 => context (.label "unicode 4-digit hex code") (commit (hexEscape 4))
  | 85 => context (.label "unicode 8-digit hex code") (commit (hexEscape 8))
  | 92 => pure '\\'
  | 34 => pure '"'
  | _ =>
    ['b', 'f', 'n', 'r', 't', 'u', 'U', '\\', '"'].foldl (fun p c => context (.char c) p)
      (context (.label "escape sequence") (commit fail))

/-- A backslash escape. -/
def escaped : Parser String := do
  byte 92
  let c ← escapeSequence
  pure c.toString

/-- A run of characters of a basic string, or one escape. -/
def basicChunk : Parser String :=
  orElse (do let bs ← takeWhile 1 unbounded isBasicByte; pure (text bs)) escaped

/-- A basic string: `"`, characters and escapes, `"`. -/
def basicString : Parser String := do
  byte (ascii '"')
  let chunks ← many basicChunk false
  context (.label "basic string") (commit (byte (ascii '"')))
  pure (String.join chunks)

/-- One or two quotes `q` followed by what `follow` accepts (which stays unread). -/
def quotes (q : Char) (follow : Parser Unit) : Parser String :=
  orElse (do literal (String.ofList [q, q]); lookahead follow; pure (String.ofList [q, q]))
    (do literal q.toString; lookahead follow; pure q.toString)

/-- A backslash at the end of a line, which swallows the following blanks and newlines. -/
def escapedLineBreak : Parser Unit := do
  let _ ← many (do byte 92; blanks; newlines) true

/-- A piece of a multi-line basic string. -/
def multiLineChunk : Parser String :=
  firstOf [do let bs ← takeWhile 1 unbounded isBasicByte; pure (text bs),
    do escapedLineBreak; pure "",
    escaped,
    do newline; pure "\n"]

/-- The body of a multi-line basic string: pieces, with runs of one or two quotes inside. -/
def multiLineBody : Parser String := fun input pos =>
  let rec go (fuel : Nat) (pos : Nat) (acc : String) : Except Failure (String × Nat) :=
    match fuel with
    | 0 => .ok (acc, pos)
    | fuel + 1 =>
      match optional (quotes '"' (do let _ ← byteIf (· ≠ ascii '"'))) input pos with
      | .error e => .error e
      | .ok (none, _) => .ok (acc, pos)
      | .ok (some q, afterQuotes) =>
        match many multiLineChunk true input afterQuotes with
        | .ok (cs, pos') => go fuel pos' (acc ++ q ++ String.join cs)
        | .error e => if e.committed then .error e else .ok (acc, afterQuotes)
  match many multiLineChunk false input pos with
  | .error e => .error e
  | .ok (cs, pos') =>
    match go (input.size - pos' + 1) pos' (String.join cs) with
    | .error e => .error e
    | .ok (body, pos'') =>
      match optional (quotes '"' (literal "\"\"\"")) input pos'' with
      | .error e => .error e
      | .ok (q, pos''') => .ok (body ++ q.getD "", pos''')

/-- A multi-line basic string: three quotes, an optional newline, the body, three quotes. -/
def multiLineBasicString : Parser String :=
  context (.label "multiline basic string") do
    literal "\"\"\""
    let _ ← optional newline
    let body ← commit multiLineBody
    commit (literal "\"\"\"")
    pure body

/-- A piece of a multi-line literal string. -/
def literalChunk : Parser Unit := orElse (do let _ ← byteIf isLiteralByte) newline

/-- The characters with each carriage return and line feed replaced by a line feed. -/
def unixLineChars : List Char → List Char
  | '\r' :: '\n' :: rest => '\n' :: unixLineChars rest
  | c :: rest => c :: unixLineChars rest
  | [] => []

/-- Replaces each carriage return and line feed by a line feed. -/
def unixLines (s : String) : String := String.ofList (unixLineChars s.toList)

/-- A multi-line literal string: three apostrophes, an optional newline, the body, three
apostrophes. -/
def multiLineLiteralString : Parser String :=
  context (.label "multiline literal string") do
    literal "'''"
    let _ ← optional newline
    let body ← commit (recognize do
      let _ ← many literalChunk false
      let _ ← many (do let _ ← quotes '\'' (do let _ ← byteIf (· ≠ ascii '\''))
                       let _ ← many literalChunk true) false
      let _ ← optional (quotes '\'' (literal "'''")))
    commit (literal "'''")
    pure (unixLines (text body))

/-- A literal string: an apostrophe, characters, an apostrophe. -/
def literalString : Parser String :=
  context (.label "literal string") do
    byte (ascii '\'')
    let body ← commit (takeWhile 0 unbounded isLiteralByte)
    commit (byte (ascii '\''))
    pure (text body)

/-- Any string. -/
def string : Parser String :=
  firstOf [multiLineBasicString, basicString, multiLineLiteralString, literalString]

/-! ## Keys -/

/-- The deepest a key may be dotted. -/
def nestingLimit : Nat := 80

/-- One key: bare or quoted. -/
def simpleKey : Parser Key := fun input pos =>
  let inner : Parser String := do
    match ← peek with
    | some 34 => basicString
    | some 39 => literalString
    | some _ => do let bs ← takeWhile 1 unbounded isBareKeyByte; pure (text bs)
    | none => fail
  match withSpan inner input pos with
  | .ok ((name, start, stop), pos') =>
    .ok (⟨name, text (input.extract start stop).toList, ⟨start, stop⟩⟩, pos')
  | .error e => .error e

/-- A key, dotted or not, with blanks around each part. -/
def key : Parser (List Key) :=
  tryMap (context (.label "key") (separated (do blanks; let k ← simpleKey; blanks; pure k)
    (byte (ascii '.')))) fun keys =>
      if keys.length < nestingLimit then .ok keys else .error Problem.recursionLimit.message

/-- The sign `=` between a key and its value. -/
def keyValueSeparator : Parser Unit :=
  context (.char '=') (context (.char '.') (byte (ascii '=')))

/-! ## Numbers -/

def digit : Parser Unit := do let _ ← byteIf isDigit

/-- Digits `d`, with single underscores between two of them. -/
def digitsWith (d : Parser Unit) : Parser Unit := do
  d
  let _ ← many (orElse d (do byte (ascii '_'); context (.description "digit") (commit d))) false

/-- An optional sign. -/
def sign : Parser (Option UInt8) := optional (byteIf fun b => b = ascii '+' || b = ascii '-')

/-- A decimal integer: an optional sign, then `0` or digits that do not start with `0`. -/
def decimalInteger : Parser Unit :=
  context (.label "integer") do
    let _ ← sign
    orElse (do let _ ← byteIf fun b => ascii '1' ≤ b && b ≤ ascii '9'
               let _ ← many (orElse digit (do byte (ascii '_')
                                              context (.description "digit") (commit digit))) false)
      digit

/-- The value of digits in a base, with underscores ignored. -/
def digitValue (base : Nat) (bytes : List UInt8) : Nat :=
  bytes.foldl (fun acc b =>
    if b = ascii '_' then acc
    else acc * base + (if isDigit b then b.toNat - 48 else if b ≤ ascii 'F' then b.toNat - 55
      else b.toNat - 87)) 0

/-- The smallest and largest integers a document holds. -/
def smallestInteger : Int := -Int.pow 2 63
def largestInteger : Int := Int.pow 2 63 - 1

/-- Reads a signed 64-bit integer from its decimal text. -/
def integerOfText (bytes : List UInt8) : Except String Int :=
  let negative := bytes.head? = some (ascii '-')
  let magnitude : Int := digitValue 10 (bytes.filter isDigit)
  let value := if negative then -magnitude else magnitude
  if value > largestInteger then .error "number too large to fit in target type"
  else if value < smallestInteger then .error "number too small to fit in target type"
  else .ok value

/-- Digits after a prefix, in a base whose digits `d` accepts. -/
def prefixedInteger (pre : String) (name : String) (d : Parser Unit) : Parser (List UInt8) :=
  context (.label name) do
    literal pre
    commit (recognize (digitsWith d))

/-- The value of digits in a base, if it fits a signed 64-bit integer. -/
def integerInBase (base : Nat) (bytes : List UInt8) : Except String Int :=
  let value : Int := digitValue base bytes
  if value > largestInteger then .error "number too large to fit in target type" else .ok value

/-- An integer: hexadecimal, octal or binary after its prefix, or decimal. -/
def integer : Parser Int := do
  match ← peekTwo with
  | some (48, 120) =>
    commit (tryMap (prefixedInteger "0x" "hexadecimal integer" (do let _ ← byteIf isHexDigit))
      (integerInBase 16))
  | some (48, 111) =>
    commit (tryMap (prefixedInteger "0o" "octal integer"
      (do let _ ← byteIf fun b => ascii '0' ≤ b && b ≤ ascii '7')) (integerInBase 8))
  | some (48, 98) =>
    commit (tryMap (prefixedInteger "0b" "binary integer"
      (do let _ ← byteIf fun b => b = ascii '0' || b = ascii '1')) (integerInBase 2))
  | _ => andThen decimalInteger (commit (tryMap rest integerOfText))

/-- The digits after the first, with underscores between two of them. -/
def zeroPrefixable : Parser Unit := digitsWith digit

/-- A fraction: a point and digits. -/
def fraction : Parser Unit := do
  byte (ascii '.')
  context (.description "digit") (commit zeroPrefixable)

/-- An exponent: `e` or `E`, an optional sign, digits. -/
def exponent : Parser Unit := do
  let _ ← byteIf fun b => b = ascii 'e' || b = ascii 'E'
  let _ ← sign
  commit zeroPrefixable

/-- The double that the text of a float stands for. -/
def floatOfText (bytes : List UInt8) : Float :=
  let bytes := bytes.filter (· ≠ ascii '_')
  let negative := bytes.head? = some (ascii '-')
  let body := bytes.dropWhile fun b => b = ascii '-' || b = ascii '+'
  let mantissa := body.takeWhile fun b => b ≠ ascii 'e' && b ≠ ascii 'E'
  let afterE := (body.dropWhile fun b => b ≠ ascii 'e' && b ≠ ascii 'E').drop 1
  let whole := mantissa.takeWhile (· ≠ ascii '.')
  let frac := (mantissa.dropWhile (· ≠ ascii '.')).drop 1
  let expNegative := afterE.head? = some (ascii '-')
  let expDigits := afterE.filter isDigit
  -- exponents beyond any double are clipped; the result is zero or infinite either way
  let expMagnitude : Int := min (digitValue 10 expDigits) 100000
  let exp : Int := (if expNegative then -expMagnitude else expMagnitude) - frac.length
  FloatText.ofDecimal negative (digitValue 10 (whole ++ frac)) exp

/-- `inf` or `nan` with an optional sign. -/
def specialFloat : Parser Float := do
  let s ← sign
  let f ← orElse (do literal "inf"; pure ((1 : Float) / 0)) (do literal "nan"; pure ((0 : Float) / 0))
  pure (if s = some (ascii '-') then -f else f)

/-- Whether a float is positive infinity. -/
def isPositiveInfinity (f : Float) : Bool := f.isInf && 0 < f

/-- A float: a decimal integer with a fraction, an exponent or both; too large a float is
refused, while a negative one that is too large stays negative infinity. -/
def float : Parser Float :=
  context (.label "floating-point number") <| orElse
    (andThen (do decimalInteger; orElse exponent (do fraction; let _ ← optional exponent))
      (commit (verify (do let bs ← rest; pure (floatOfText bs)) fun f => !isPositiveInfinity f)))
    specialFloat

/-- The literal `word`, once its first letter is there. -/
def keyword (word : String) : Parser Unit := commit (literal word)

/-! ## Dates and times -/

/-- Between `low` and `high` digits, with their value. -/
def digitsBetween (low high : Nat) : Parser Nat := do
  let bs ← takeWhile low high isDigit
  pure (digitValue 10 bs)

/-- Two digits with a value from `low` to `high`. -/
def twoDigits (low high : Nat) : Parser Nat :=
  tryMap (digitsBetween 2 2) fun v =>
    if low ≤ v && v ≤ high then .ok v else .error Problem.outOfRange.message

/-- The days of a month. -/
def daysIn (year month : Nat) : Nat :=
  if month = 2 then (if year % 4 = 0 && (year % 100 ≠ 0 || year % 400 = 0) then 29 else 28)
  else if month = 4 || month = 6 || month = 9 || month = 11 then 30 else 31

/-- A date: year, month and day. -/
def fullDate : Parser Unit := fun input pos =>
  let head : Parser (Nat × Nat × Nat) := do
    let year ← digitsBetween 4 4
    byte (ascii '-')
    let month ← commit (twoDigits 1 12)
    commit (byte (ascii '-'))
    let dayStart ← position
    let day ← commit (twoDigits 1 31)
    pure (year * 10000 + month, day, dayStart)
  match head input pos with
  | .error e => .error e
  | .ok ((yearMonth, day, dayStart), pos') =>
    if daysIn (yearMonth / 10000) (yearMonth % 10000) < day then
      .error ⟨dayStart, [], some Problem.outOfRange.message, true⟩
    else .ok ((), pos')

/-- A time: hour, minute, second and an optional fraction. -/
def partialTime : Parser Unit := do
  let _ ← twoDigits 0 23
  byte (ascii ':')
  commit do
    let _ ← twoDigits 0 59
    byte (ascii ':')
    let _ ← twoDigits 0 60
    let _ ← optional (do byte (ascii '.'); let _ ← digitsBetween 1 unbounded)

/-- An offset: `Z`, or a sign, hours and minutes. -/
def timeOffset : Parser Unit :=
  context (.label "time offset") <| orElse
    (do let _ ← byteIf fun b => b = ascii 'Z' || b = ascii 'z')
    (do let _ ← byteIf fun b => b = ascii '+' || b = ascii '-'
        commit (do let _ ← twoDigits 0 23; byte (ascii ':'); let _ ← twoDigits 0 59))

/-- A date with an optional time and offset, or a time alone. -/
def dateTime : Parser String := do
  let bs ← recognize <| orElse
    (context (.label "date-time") do
      fullDate
      let _ ← optional (do
        let _ ← byteIf fun b => b = ascii 'T' || b = ascii 't' || b = ascii ' '
        partialTime
        let _ ← optional timeOffset))
    (context (.label "time") partialTime)
  pure (text bs)

/-! ## Values -/

/-- `p`, reported as a misspelt string if it fails. -/
def asString {α : Type} (p : Parser α) : Parser α :=
  context (.char '\'') (context (.char '"') (context (.label "string") p))

/-- Adds an entry to an inline table along a dotted path, creating dotted tables on the way. A
dotted key may only pass through tables that dotted keys created: a table written out as a
value is complete, so passing through it repeats its key. -/
def insertInline (path : List String) (full : List String) (leaf : String) (v : Value) :
    Bool → List (String × Value) → Except Problem (List (String × Value))
  | flag, entries =>
    match path with
    | [] =>
      if flag == full.isEmpty then .error (.duplicateKey leaf none)
      else if entries.any (·.1 == leaf) then .error (.duplicateKey leaf none)
      else .ok (entries ++ [(leaf, v)])
    | k :: rest =>
      match entries.find? (·.1 == k) with
      | none => do
        let inner ← insertInline rest full leaf v true []
        pure (entries ++ [(k, .table true inner)])
      | some (_, .table false _) => .error (.duplicateKey k none)
      | some (_, .table d inner) => do
        let inner' ← insertInline rest full leaf v d inner
        pure (entries.map fun (k', x) => if k' == k then (k', .table d inner') else (k', x))
      | some (_, other) =>
        .error (.extendWrongType (full.take (full.length - rest.length)) other.typeName)

/-- The inline table of key-value pairs in order. -/
def inlineTable (pairs : List (List Key × Value)) : Except String Value := do
  let entries ← pairs.foldlM (fun entries (keys, v) =>
    let path := keys.dropLast.map (·.name)
    let leaf := (keys.getLast?.map (·.name)).getD ""
    (insertInline path path leaf v false entries).mapError (·.message)) []
  pure (.table false entries)

/-- An array of values read by `element`. -/
def arrayOf (element : Parser Value) : Parser Value := do
  byte (ascii '[')
  let items ← commit do
    let items ← optional do
      let vs ← separated (do blankLinesAndComments; let v ← element; blankLinesAndComments; pure v)
        (byte (ascii ','))
      let _ ← optional (byte (ascii ','))
      pure vs
    blankLinesAndComments
    pure (items.getD [])
  context (.char ']') (context (.label "array") (commit (byte (ascii ']'))))
  pure (.array items)

/-- An inline table of values read by `element`. -/
def inlineTableOf (element : Parser Value) : Parser Value := do
  byte (ascii '{')
  let table ← commit (tryMap (do
    let pairs ← optional (separated (do
      let keys ← key
      let v ← commit (do keyValueSeparator; blanks; let v ← element; blanks; pure v)
      pure (keys, v)) (byte (ascii ',')))
    blanks
    pure (pairs.getD [])) inlineTable)
  context (.char '}') (context (.label "inline table") (commit (byte (ascii '}'))))
  pure table

/-- A value whose arrays and inline tables `array` and `inline` read. -/
def valueWith (array inline : Parser Value) : Parser Value := do
  match ← peek with
  | some 34 | some 39 => do let s ← string; pure (.string s)
  | some 91 => array
  | some 123 => inline
  | some b =>
    if b = ascii '+' || b = ascii '-' || isDigit b then
      firstOf [do let t ← dateTime; pure (.datetime t),
        do let f ← float; pure (.float f),
        do let i ← integer; pure (.integer i)]
    else if b = ascii '_' then
      context (.description "leading digit") (do let i ← integer; pure (.integer i))
    else if b = ascii '.' then
      context (.description "leading digit") (do let f ← float; pure (.float f))
    else if b = ascii 't' then asString (do keyword "true"; pure (.boolean true))
    else if b = ascii 'f' then asString (do keyword "false"; pure (.boolean false))
    else if b = ascii 'i' then asString (do literal "inf"; pure (.float ((1 : Float) / 0)))
    else if b = ascii 'n' then asString (do literal "nan"; pure (.float ((0 : Float) / 0)))
    else asString fail
  | none => fail

/-- Refuses an array or inline table nested deeper than documents may go. -/
def tooDeep : Parser Value := fun _ pos =>
  .error ⟨pos, [], some Problem.recursionLimit.message, true⟩

/-- A value in which at most `depth` arrays and inline tables may be nested. -/
def value : Nat → Parser Value
  | 0 => valueWith tooDeep tooDeep
  | depth + 1 => valueWith (arrayOf (value depth)) (inlineTableOf (value depth))

end WorkLedger.Toml.Grammar
