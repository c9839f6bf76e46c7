import WorkLedger.Toml.Grammar
import WorkLedger.Text.Utf8

/-!
# Reading a TOML document

A document is read line by line: blank lines, comments, key-value pairs and table headers
(`[a.b]` for a table, `[[a.b]]` for the next table of an array). Pairs go into the table of the
last header, or into the root before any header. A table is complete when the next header
starts or the source ends; it then takes its place in the tree.

A key may not be defined twice, a header may not define a table again, and a dotted key may
not run through a value. The first such problem, or the first syntax error, is the answer,
reported at the line where it arose.
-/

namespace WorkLedger.Toml

open WorkLedger.Toml.Parser WorkLedger.Toml.Grammar

/-- The entry for `name` among a table's entries. -/
def lookup (entries : List (Key × Item)) (name : String) : Option Item :=
  (entries.find? (·.1.name == name)).map (·.2)

/-- Replaces what `name` holds, keeping the key as first written. -/
def replaceEntry (entries : List (Key × Item)) (name : String) (item : Item) :
    List (Key × Item) :=
  entries.map fun (k, it) => if k.name == name then (k, item) else (k, it)

/-- Works on the table that `path` leads to from a table's entries: `work` gets that table's
dotted flag and entries and returns them changed. Missing tables on the way are created as
implicit tables, dotted when `dotted`; an array of tables leads into its last table. `full` is
the whole path, of which `path` is what is left after `index` keys. -/
def descend {α : Type} (dotted : Bool) (full : List Key)
    (work : Bool → List (Key × Item) → Except Problem (List (Key × Item) × α)) :
    List Key → Nat → Bool → List (Key × Item) → Except Problem (List (Key × Item) × α)
  | [], _, flag, entries => work flag entries
  | key :: rest, index, _, entries =>
    match lookup entries key.name with
    | none => do
      let (inner, a) ← descend dotted full work rest (index + 1) dotted []
      pure (entries ++ [(key, .table true dotted none inner)], a)
    | some (.value v _) =>
      .error (.extendWrongType ((full.take (index + 1)).map (·.name)) v.typeName)
    | some (.tables ts) =>
      match ts.getLast? with
      | some (span, inner) => do
        let (inner', a) ← descend dotted full work rest (index + 1) false inner
        pure (replaceEntry entries key.name (.tables (ts.dropLast ++ [(span, inner')])), a)
      | none => do
        let (inner, a) ← descend dotted full work rest (index + 1) false []
        pure (replaceEntry entries key.name (.tables [(none, inner)]), a)
    | some (.table implicit d span inner) =>
      if !implicit && d != dotted then .error (.duplicateKey key.name none)
      else do
        let (inner', a) ← descend dotted full work rest (index + 1) d inner
        pure (replaceEntry entries key.name (.table implicit d span inner'), a)

/-- The problem of a header that defines `path` again: its last key as written, in the table of
the keys before it. -/
def redefined (path : List Key) : Problem :=
  .duplicateKey ((path.getLast?.map (·.raw)).getD "") (some (path.dropLast.map (·.name)))

/-- A document being read: the tree so far, and the table of the last header with its path,
header span and whether it belongs to an array of tables. -/
structure Builder where
  root : List (Key × Item)
  current : List (Key × Item)
  path : List Key
  span : Option Span
  inArray : Bool

namespace Builder

/-- Nothing read yet. -/
def empty : Builder := ⟨[], [], [], none, false⟩

/-- Adds a pair with key `keys` and value spanning `valueSpan` to the current table, whose span
then runs from its header to the end of that value. -/
def addPair (b : Builder) (keys : List Key) (item : Item) (valueSpan : Span) :
    Except Problem Builder := do
  let path := keys.dropLast
  let leaf := keys.getLast?.getD default
  let (current, ()) ← descend true path (fun flag entries =>
    if flag == path.isEmpty then .error (.duplicateKey leaf.name none)
    else if (lookup entries leaf.name).isSome then
      .error (.duplicateKey leaf.name (some (b.path.map (·.name))))
    else .ok (entries ++ [(leaf, item)], ())) path 0 false b.current
  pure { b with current, span := b.span.map fun s => ⟨s.start, valueSpan.stop⟩ }

/-- Puts the current table in its place in the tree. -/
def finish (b : Builder) : Except Problem Builder :=
  match b.path.getLast? with
  | none => .ok { b with root := b.current, current := [] }
  | some last => do
    let parent := b.path.dropLast
    let table := b.current
    let (root, ()) ← descend false b.path (fun _ entries =>
      if b.inArray then
        match lookup entries last.name with
        | none => .ok (entries ++ [(last, .tables [(b.span, table)])], ())
        | some (.tables ts) => .ok (replaceEntry entries last.name (.tables (ts ++ [(b.span, table)])), ())
        | some _ => .error (redefined b.path)
      else
        match lookup entries last.name with
        | none => .ok (entries ++ [(last, .table false false b.span table)], ())
        | some (.table true _ _ _) =>
          .ok (replaceEntry entries last.name (.table false false b.span table), ())
        | some _ => .error (redefined b.path)) parent 0 false b.root
    pure { root, current := [], path := [], span := none, inArray := false }

/-- Starts the table of a header `[path]`, taking over a table that only its descendants have
defined so far. -/
def startTable (b : Builder) (path : List Key) (span : Span) : Except Problem Builder := do
  let b ← b.finish
  let last := path.getLast?.getD default
  let (root, current) ← descend false path (fun _ entries =>
    match lookup entries last.name with
    | none => .ok (entries, [])
    | some (.table true false _ inner) => .ok (entries.filter (·.1.name != last.name), inner)
    | some _ => .error (redefined path)) path.dropLast 0 false b.root
  pure { root, current, path, span := some span, inArray := false }

/-- Starts the next table of an array of tables `[[path]]`. -/
def startArrayTable (b : Builder) (path : List Key) (span : Span) : Except Problem Builder := do
  let b ← b.finish
  let last := path.getLast?.getD default
  let (root, ()) ← descend false path (fun _ entries =>
    match lookup entries last.name with
    | none => .ok (entries ++ [(last, .tables [])], ())
    | some (.tables _) => .ok (entries, ())
    | some _ => .error (redefined path)) path.dropLast 0 false b.root
  pure { root, current := [], path, span := some span, inArray := true }

end Builder

/-- How deep arrays and inline tables may nest in a value. -/
def valueDepth : Nat := nestingLimit - 1

/-- A key-value pair: the key, and the value with its span. -/
def keyValue : Parser (List Key × Value × Span) := do
  let keys ← key
  commit do
    keyValueSeparator
    blanks
    let (v, start, stop) ← withSpan (value valueDepth)
    context (.char '#') (context (.char '\n') lineTrailing)
    pure (keys, v, ⟨start, stop⟩)

/-- A table header, `[key]` or `[[key]]`, with its span and whether it is of an array. -/
def header : Parser (List Key × Span × Bool) :=
  context (.label "table header") do
    match ← peekTwo with
    | some (91, 91) => do
      let (keys, start, stop) ← withSpan do
        literal "[["
        let keys ← commit key
        context (.text "]]") (context (.char '.') (commit (literal "]]")))
        pure keys
      context (.char '#') (context (.char '\n') (commit lineTrailing))
      pure (keys, ⟨start, stop⟩, true)
    | some _ => do
      let (keys, start, stop) ← withSpan do
        byte 91
        let keys ← commit key
        context (.text "]") (context (.char '.') (commit (byte 93)))
        pure keys
      context (.char '#') (context (.char '\n') (commit lineTrailing))
      pure (keys, ⟨start, stop⟩, false)
    | none => fail

/-- A problem of the document, reported where the line that caused it starts. -/
def problemAt (pos : Nat) (p : Problem) (labels : List Context) : Failure :=
  ⟨pos, labels, some p.message, true⟩

/-- Reads the lines of a document from `pos` on, at most `fuel` of them. -/
def readLines (input : ByteArray) : Nat → Nat → Builder → Except Failure (Builder × Nat)
  | 0, pos, b => .ok (b, pos)
  | fuel + 1, pos, b =>
    let next : Except Failure (Builder × Nat) :=
      match input[pos]? with
      | none => .error ⟨pos, [], none, false⟩
      | some 35 => (do commit (do comment; lineEnding); pure b) input pos
      | some 91 =>
        match commit header input pos with
        | .error e => .error e
        | .ok ((keys, span, inArray), pos') =>
          let started := if inArray then b.startArrayTable keys span else b.startTable keys span
          match started with
          | .ok b' => .ok (b', pos')
          | .error p => .error (problemAt pos p [.label "table header"])
      | some 10 | some 13 => (do newline; pure b) input pos
      | some _ =>
        match commit keyValue input pos with
        | .error e => .error e
        | .ok ((keys, v, span), pos') =>
          match b.addPair keys (.value v span) span with
          | .ok b' => .ok (b', pos')
          | .error p => .error (problemAt pos p [])
    match next with
    | .error e => if e.committed then .error e else .ok (b, pos)
    | .ok (b', pos') =>
      match blanks input pos' with
      | .ok ((), pos'') => if pos'' ≤ pos then .ok (b', pos'') else readLines input fuel pos'' b'
      | .error e => .error e

/-- Where the character holding byte offset `pos` starts. -/
def charStart (input : ByteArray) : Nat → Nat
  | 0 => 0
  | i + 1 =>
    match input[i + 1]? with
    | some b => if Text.Utf8.isTail b then charStart input i else i + 1
    | none => i + 1

/-- The bytes of the character holding byte offset `pos`; empty at the end of the input. -/
def charSpan (input : ByteArray) (pos : Nat) : Span :=
  let start := charStart input pos
  match input[start]? with
  | some b => ⟨start, start + Text.Utf8.width b⟩
  | none => ⟨start, start⟩

/-- The root entries of a document, or where and why it cannot be read. -/
def parse (source : String) : Except Error (List (Key × Item)) :=
  let input := source.toUTF8
  let start := if Parser.standsAt input 0 [0xEF, 0xBB, 0xBF] then 3 else 0
  let start := match blanks input start with
    | .ok ((), p) => p
    | .error _ => start
  let failure (f : Failure) : Error :=
    ⟨f.message, some (charSpan input f.pos), []⟩
  match readLines input (input.size + 1) start Builder.empty with
  | .error f => .error (failure f)
  | .ok (b, pos) =>
    if pos < input.size then .error (failure ⟨pos, [], none, false⟩)
    else
      match b.finish with
      | .ok b => .ok b.root
      | .error p => .error ⟨p.message, none, []⟩

end WorkLedger.Toml
