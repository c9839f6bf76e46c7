/-!
# TOML documents

A document is a table: keys in the order they were first defined, each holding a value, a
table, or an array of tables. Values are strings, integers (64-bit signed), floats, booleans,
dates and times, arrays and inline tables. Every key and every value of a document remembers
where it stands in the source, so that an error about it can point there.

Tables are implicit when only their descendants were defined (by a header `[a.b]` or a dotted
key `a.b = 1`), and dotted when dotted keys defined them; a table defined one way may not be
extended the other way, and no key is defined twice.
-/

namespace WorkLedger.Toml

/-- A stretch of the source, as byte offsets from `start` up to `stop`. -/
structure Span where
  start : Nat
  stop : Nat
  deriving Inhabited

/-- A key as it stands in the source: its name, its text as written, and where. -/
structure Key where
  name : String
  raw : String
  span : Span
  deriving Inhabited

/-- A value. -/
inductive Value where
  | string (s : String)
  | integer (i : Int)
  | float (f : Float)
  | boolean (b : Bool)
  /-- A date, a time or both, kept as written. -/
  | datetime (text : String)
  | array (items : List Value)
  /-- An inline table; `dotted` when dotted keys created it. -/
  | table (dotted : Bool) (entries : List (String × Value))
  deriving Inhabited

/-- The name of a value's type. -/
def Value.typeName : Value → String
  | .string _ => "string"
  | .integer _ => "integer"
  | .float _ => "float"
  | .boolean _ => "boolean"
  | .datetime _ => "datetime"
  | .array _ => "array"
  | .table .. => "inline table"

/-- What a key of a table holds. -/
inductive Item where
  | value (v : Value) (span : Span)
  /-- A table; `implicit` when only its descendants were defined, `dotted` when dotted keys
  created it, with the span of its header if it has one. -/
  | table (implicit dotted : Bool) (span : Option Span) (entries : List (Key × Item))
  /-- An array of tables, each with the span of its header. -/
  | tables (list : List (Option Span × List (Key × Item)))
  deriving Inhabited

/-- A rule of documents that the source breaks. -/
inductive Problem where
  /-- A key defined twice; `table` names the table it is in, when known. -/
  | duplicateKey (key : String) (table : Option (List String))
  /-- A dotted key that runs through a value which is not a table. -/
  | extendWrongType (path : List String) (actual : String)
  /-- A number outside the range of its kind. -/
  | outOfRange
  /-- Nesting deeper than documents may go. -/
  | recursionLimit

/-- The problem, in words. -/
def Problem.message : Problem → String
  | .duplicateKey key none => "duplicate key \x60" ++ key ++ "\x60"
  | .duplicateKey key (some []) => "duplicate key \x60" ++ key ++ "\x60 in document root"
  | .duplicateKey key (some path) =>
    "duplicate key \x60" ++ key ++ "\x60 in table \x60" ++ ".".intercalate path ++ "\x60"
  | .extendWrongType path actual =>
    "dotted key \x60" ++ ".".intercalate path ++ "\x60 attempted to extend non-table type (" ++
      actual ++ ")"
  | .outOfRange => "value is out of range"
  | .recursionLimit => "recursion limit exceeded"

/-- An error about a document: a message, where in the source it applies, and the keys that
lead to the offending item. -/
structure Error where
  message : String
  span : Option Span
  keys : List String

/-- The line and column (both from zero) of a byte offset: the column counts characters, or
bytes when the offset falls inside a character; an offset past the end counts on from the last
byte. -/
def lineColumn (source : ByteArray) (offset : Nat) : Nat × Nat :=
  if source.size = 0 then (0, offset)
  else
    let safe := min offset (source.size - 1)
    let before := (source.extract 0 safe).toList
    let lineStart := match (before.zipIdx.filter (·.1 = 10)).getLast? with
      | some (_, i) => i + 1
      | none => 0
    let line := ((source.extract 0 lineStart).toList.filter (· = 10)).length
    let column := match String.fromUTF8? (source.extract lineStart (safe + 1)) with
      | some s => s.length - 1
      | none => safe - lineStart
    (line, column + (offset - safe))

/-- The error as a report on the source: the line and column, the offending line with the span
marked under it, and the message; without a span, the message and the keys. -/
def Error.render (source : String) (e : Error) : String :=
  match e.span with
  | some span =>
    let bytes := source.toUTF8
    let (line, column) := lineColumn bytes span.start
    let lineNumber := toString (line + 1)
    let gutter := String.ofList (List.replicate (lineNumber.length + 1) ' ')
    let content := (source.splitOn "\n").getD line ""
    let width := min (span.stop - span.start) (content.utf8ByteSize - column)
    "TOML parse error at line " ++ lineNumber ++ ", column " ++ toString (column + 1) ++ "\n" ++
      gutter ++ "|\n" ++
      lineNumber ++ " | " ++ content ++ "\n" ++
      gutter ++ "|" ++ String.ofList (List.replicate (column + 1) ' ') ++ "^" ++
      String.ofList (List.replicate (width - 1) '^') ++ "\n" ++
      e.message ++ "\n"
  | none =>
    e.message ++ "\n" ++
      (if e.keys.isEmpty then "" else "in \x60" ++ ".".intercalate e.keys ++ "\x60\n")

end WorkLedger.Toml
