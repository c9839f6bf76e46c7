/-!
# JSON values and their text

A `Json` value keeps the order of an object's members as written. Integers are exact; a number
with a fraction or an exponent, or an integer outside the 64-bit ranges, is a double.

Text is written compactly (no blanks at all) or pretty (members and elements on lines of their
own, indented by two spaces per level, `": "` between a key and its value, and `[]`, `{}` for
empty containers). Strings escape the quote, the backslash and every control character below
U+0020: backspace, form feed, line feed, carriage return and tab by their letters and the rest
as `\u00` and two lowercase hexadecimal digits.
-/

namespace WorkLedger

/-- A JSON value. -/
inductive Json where
  | null
  | bool (b : Bool)
  | int (i : Int)
  | float (f : Float)
  | str (s : String)
  | arr (items : List Json)
  | obj (members : List (String × Json))
  deriving Inhabited

namespace Json

/-- The value of the first member named `key` of an object, if any. -/
def get? (j : Json) (key : String) : Option Json :=
  match j with
  | .obj members => (members.find? (·.1 == key)).map (·.2)
  | _ => none

/-- The escaped form of one character inside a JSON string. -/
def escapeChar (c : Char) : String :=
  if c = '"' then "\\\""
  else if c = '\\' then "\\\\"
  else if c = '\n' then "\\n"
  else if c = '\r' then "\\r"
  else if c = '\t' then "\\t"
  else if c = '\x08' then "\\b"
  else if c = '\x0c' then "\\f"
  else if c.toNat < 0x20 then
    let hex := Nat.toDigits 16 c.toNat
    "\\u00" ++ (if hex.length < 2 then "0" else "") ++ String.ofList hex
  else c.toString

/-- A string literal. -/
def quote (s : String) : String := "\"" ++ String.join (s.toList.map escapeChar) ++ "\""

/-- The text of an integer. -/
def intText (i : Int) : String := if i < 0 then "-" ++ toString i.natAbs else toString i.natAbs

mutual

/-- Compact text. -/
def compactWith (float : Float → String) : Json → String
  | .null => "null"
  | .bool b => if b then "true" else "false"
  | .int i => intText i
  | .float f => float f
  | .str s => quote s
  | .arr items => "[" ++ compactItems float items ++ "]"
  | .obj members => "\x7b" ++ compactMembers float members ++ "\x7d"

/-- Compact elements separated by commas. -/
def compactItems (float : Float → String) : List Json → String
  | [] => ""
  | [x] => compactWith float x
  | x :: rest => compactWith float x ++ "," ++ compactItems float rest

/-- Compact members separated by commas. -/
def compactMembers (float : Float → String) : List (String × Json) → String
  | [] => ""
  | [(k, v)] => quote k ++ ":" ++ compactWith float v
  | (k, v) :: rest => quote k ++ ":" ++ compactWith float v ++ "," ++ compactMembers float rest

end

/-- Two spaces per level. -/
def indent (level : Nat) : String := String.ofList (List.replicate (2 * level) ' ')

mutual

/-- Pretty text of a value standing at nesting `level`. -/
def prettyWith (float : Float → String) (level : Nat) : Json → String
  | .arr [] => "[]"
  | .obj [] => "\x7b\x7d"
  | .arr items => "[\n" ++ prettyItems float (level + 1) items ++ "\n" ++ indent level ++ "]"
  | .obj members =>
    "\x7b\n" ++ prettyMembers float (level + 1) members ++ "\n" ++ indent level ++ "\x7d"
  | j => compactWith float j

/-- Pretty elements, one per line. -/
def prettyItems (float : Float → String) (level : Nat) : List Json → String
  | [] => ""
  | [x] => indent level ++ prettyWith float level x
  | x :: rest => indent level ++ prettyWith float level x ++ ",\n" ++ prettyItems float level rest

/-- Pretty members, one per line. -/
def prettyMembers (float : Float → String) (level : Nat) : List (String × Json) → String
  | [] => ""
  | [(k, v)] => indent level ++ quote k ++ ": " ++ prettyWith float level v
  | (k, v) :: rest =>
    indent level ++ quote k ++ ": " ++ prettyWith float level v ++ ",\n" ++
      prettyMembers float level rest

end

end Json

end WorkLedger
