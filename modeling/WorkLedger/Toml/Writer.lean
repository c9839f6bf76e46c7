import WorkLedger.Toml.Value

/-!
# Writing TOML strings

A string is written in the first of four forms that holds it without an escape:

* a basic string (`"…"`), if it has no backslash, double quote, newline or control character;
* a literal string (`'…'`), if it has no apostrophe, newline or control character;
* a multi-line basic string (`"""…"""`), if it has no backslash, no control character and no
  three double quotes in a row;
* a multi-line literal string (`'''…'''`), if it has no control character and no three
  apostrophes in a row.

Here the tab is no control character, and neither is the newline in a multi-line form. A
string that none of these holds is a basic string with escapes, multi-line when it has a
newline. A multi-line form of a string with a newline starts with a newline after the opening
delimiter.

In a basic string, backspace, tab, form feed, carriage return and backslash are escaped by a
letter, and a newline too on one line; other control characters are escaped as `\u` and four
hexadecimal digits. A double quote is escaped when it would make a run of double quotes longer
than the form allows: none on one line, two in a multi-line string.
-/

namespace WorkLedger.Toml

/-- How a string is written. -/
inductive StringForm where
  /-- Between double quotes, with escapes. -/
  | basic
  /-- Between apostrophes, as it is. -/
  | literal
  /-- Between tripled double quotes, with escapes, newlines as they are. -/
  | multiLineBasic
  /-- Between tripled apostrophes, as it is. -/
  | multiLineLiteral
  deriving DecidableEq

namespace StringForm

/-- The delimiter on both sides. -/
def delimiter : StringForm → String
  | .basic => "\""
  | .literal => "'"
  | .multiLineBasic => "\"\"\""
  | .multiLineLiteral => "'''"

/-- Whether the form may span several lines. -/
def multiLine : StringForm → Bool
  | .multiLineBasic | .multiLineLiteral => true
  | _ => false

end StringForm

/-- Whether a character must be escaped in every form: a control character other than tab and
newline. -/
def isControl (c : Char) : Bool :=
  (c.toNat ≤ 0x1F && c != '\t' && c != '\n') || c.toNat = 0x7F

/-- The longest run of `c` in `s`. -/
def longestRun (c : Char) (s : List Char) : Nat :=
  (s.foldl (fun (acc : Nat × Nat) x =>
    if x = c then (max acc.1 (acc.2 + 1), acc.2 + 1) else (acc.1, 0)) (0, 0)).1

/-- The form a string is written in (see the module comment). -/
def StringForm.of (s : List Char) : StringForm :=
  let control := s.any isControl
  let backslash := s.contains '\\'
  let newline := s.contains '\n'
  let quotes := longestRun '"' s
  let apostrophes := longestRun '\'' s
  if !control && !backslash && quotes = 0 && !newline then .basic
  else if !control && apostrophes = 0 && !newline then .literal
  else if !control && !backslash && quotes ≤ 2 then .multiLineBasic
  else if !control && apostrophes ≤ 2 then .multiLineLiteral
  else if newline then .multiLineBasic
  else .basic

/-- Four uppercase hexadecimal digits of a code. -/
def hex4 (n : Nat) : String :=
  let digits := Nat.toDigits 16 n
  String.ofList ((List.replicate (4 - digits.length) '0' ++ digits).map Char.toUpper)

/-- A character other than the double quote in a basic string: escaped when it must be; a
newline kept as it is in a multi-line string. -/
def escapeBasic (multiLine : Bool) (c : Char) : String :=
  if c = '\x08' then "\\b"
  else if c = '\t' then "\\t"
  else if c = '\n' then (if multiLine then "\n" else "\\n")
  else if c = '\x0c' then "\\f"
  else if c = '\r' then "\\r"
  else if c = '\\' then "\\\\"
  else if c.toNat ≤ 0x1F || c.toNat = 0x7F then "\\u" ++ hex4 c.toNat
  else c.toString

/-- The characters of a basic string, after `run` double quotes in a row: a double quote is
escaped when the run would pass what the form allows. -/
def escapeChars (multiLine : Bool) : List Char → Nat → String
  | [], _ => ""
  | c :: rest, run =>
    if c = '"' then
      if (if multiLine then 2 else 0) < run + 1 then "\\\"" ++ escapeChars multiLine rest 0
      else "\"" ++ escapeChars multiLine rest (run + 1)
    else escapeBasic multiLine c ++ escapeChars multiLine rest 0

/-- A string as a TOML value. -/
def stringText (text : String) : String :=
  let cs := text.toList
  let form := StringForm.of cs
  let lead := if form.multiLine && cs.contains '\n' then "\n" else ""
  let body := match form with
    | .basic => escapeChars false cs 0
    | .multiLineBasic => escapeChars true cs 0
    | .literal | .multiLineLiteral => text
  form.delimiter ++ lead ++ body ++ form.delimiter

end WorkLedger.Toml
