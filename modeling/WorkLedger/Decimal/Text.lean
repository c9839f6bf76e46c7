import WorkLedger.Decimal.Basic

/-!
# Decimal text

Reading and writing decimals.

Reading takes an optional sign, digits with at most one point, and an optional exponent after
`e` or `E`; an underscore between digits is skipped. The exponent is read first, as a signed
128-bit integer, then the part before it, whose digits must not be empty; the scale is the
number of digits after the point less the exponent and must fit in 64 bits.

Writing shows the digits positionally unless more than five zeros would stand between the
point and the first digit (then one digit, a point, the rest, and `E` with a signed
exponent) or more than fifteen zeros would follow the last digit (then the digits, `e+` and
the count). Zero is written `0`.
-/

namespace WorkLedger.Decimal

/-- Why a text is not a decimal. -/
inductive ParseError where
  /-- Nothing stands before the exponent. -/
  | emptyNumber
  /-- The digits or the exponent have no digit at all. -/
  | emptyInteger
  /-- A character that is not a digit. -/
  | invalidDigit
  /-- The exponent is above the 128-bit range. -/
  | exponentTooLarge
  /-- The exponent is below the 128-bit range. -/
  | exponentTooSmall
  /-- The resulting scale leaves the 64-bit range; carries the text read. -/
  | scaleOverflow (text : String)
  deriving DecidableEq, Repr

/-- The message of a parse failure. -/
def ParseError.message : ParseError → String
  | .emptyNumber => "Failed to parse empty string"
  | .emptyInteger => "cannot parse integer from empty string"
  | .invalidDigit => "invalid digit found in string"
  | .exponentTooLarge => "number too large to fit in target type"
  | .exponentTooSmall => "number too small to fit in target type"
  | .scaleOverflow text => "Exponent overflow when parsing '" ++ text ++ "'"

/-- The value of an ASCII decimal digit. -/
def digitValue? (c : Char) : Option Nat :=
  if '0' ≤ c ∧ c ≤ '9' then some (c.toNat - '0'.toNat) else none

/-- Accumulates the digits of a signed 128-bit integer, stopping at the first character that
is no digit or at the first digit that leaves the range. -/
def accumulateExponent (negative : Bool) : List Char → Int → Except ParseError Int
  | [], acc => .ok acc
  | c :: rest, acc =>
    match digitValue? c with
    | none => .error .invalidDigit
    | some v =>
      let next := if negative then acc * 10 - v else acc * 10 + v
      if next ≥ Int.pow 2 127 then .error .exponentTooLarge
      else if next < -Int.pow 2 127 then .error .exponentTooSmall
      else accumulateExponent negative rest next

/-- Reads a signed 128-bit integer: an optional sign, then at least one digit. -/
def parseExponent (cs : List Char) : Except ParseError Int :=
  match cs with
  | [] => .error .emptyInteger
  | ['+'] | ['-'] => .error .invalidDigit
  | '+' :: rest => accumulateExponent false rest 0
  | '-' :: rest => accumulateExponent true rest 0
  | _ => accumulateExponent false cs 0

/-- Reads unsigned digits, skipping underscores after the first character. -/
def parseMagnitude (cs : List Char) : Except ParseError Nat :=
  match cs with
  | [] => .error .emptyInteger
  | '_' :: _ => .error .invalidDigit
  | _ => cs.foldlM (fun acc c =>
      if c = '_' then .ok acc
      else match digitValue? c with
        | some v => .ok (acc * 10 + v)
        | none => .error .invalidDigit) 0

/-- Reads an integer: a minus sign (unless a plus follows it) or a plus sign (unless another
plus follows it), then digits. -/
def parseInteger (cs : List Char) : Except ParseError Int :=
  match cs with
  | '-' :: rest =>
    match rest with
    | '+' :: _ => (fun m => -(m : Int)) <$> parseMagnitude cs
    | _ => (fun m => -(m : Int)) <$> parseMagnitude rest
  | '+' :: rest =>
    match rest with
    | '+' :: _ => (fun m => (m : Int)) <$> parseMagnitude cs
    | _ => (fun m => (m : Int)) <$> parseMagnitude rest
  | _ => (fun m => (m : Int)) <$> parseMagnitude cs

/-- Splits at the first occurrence of a character satisfying `p`, dropping that character. -/
def splitAtFirst (p : Char → Bool) (cs : List Char) : List Char × Option (List Char) :=
  match cs.findIdx? p with
  | some i => (cs.take i, some (cs.drop (i + 1)))
  | none => (cs, none)

/-- Reads a decimal (see the module comment for the grammar and the order of the checks). -/
def parse (text : String) : Except ParseError Decimal := do
  let cs := text.toList
  let (base, expPart) := splitAtFirst (fun c => c = 'e' || c = 'E') cs
  let exponent ← match expPart with
    | some e => parseExponent e
    | none => pure 0
  if base.isEmpty then throw .emptyNumber
  let (digits, fractional) : List Char × Nat :=
    match splitAtFirst (· = '.') base with
    | (lead, some []) => (lead, 0)
    | (lead, some trail) => (lead ++ trail, (trail.filter (· ≠ '_')).length)
    | (lead, none) => (lead, 0)
  let scale := (fractional : Int) - exponent
  if scale < -Int.pow 2 63 ∨ Int.pow 2 63 ≤ scale then throw (.scaleOverflow text)
  let unscaled ← parseInteger digits
  pure ⟨unscaled, scale⟩

/-- `n` zeros. -/
def zeros (n : Nat) : String := String.ofList (List.replicate n '0')

/-- The text of a decimal (see the module comment). -/
def toText (d : Decimal) : String :=
  if d.unscaled = 0 then "0"
  else
    let sign := if d.unscaled < 0 then "-" else ""
    let digits := (Nat.toDigits 10 d.unscaled.natAbs)
    let len := digits.length
    let body :=
      if (len : Int) + 5 < d.scale then
        let exponent := (len : Int) - d.scale - 1
        let mantissa := match digits with
          | first :: rest@(_ :: _) => String.ofList (first :: '.' :: rest)
          | _ => String.ofList digits
        mantissa ++ "E" ++ (if exponent < 0 then "-" else "+") ++ toString exponent.natAbs
      else if d.scale < -15 then
        String.ofList digits ++ "e+" ++ toString d.scale.natAbs
      else if d.scale ≤ 0 then
        String.ofList digits ++ zeros d.scale.natAbs
      else
        let s := d.scale.toNat
        if len ≤ s then "0." ++ zeros (s - len) ++ String.ofList digits
        else String.ofList (digits.take (len - s)) ++ "." ++ String.ofList (digits.drop (len - s))
    sign ++ body

instance : ToString Decimal := ⟨toText⟩

end WorkLedger.Decimal
