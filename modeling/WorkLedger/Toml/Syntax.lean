/-!
# Parsers with committed failures

A parser reads a byte string from a position and either succeeds with a value and the position
after it, or fails. A failure records where the reading stood when it gave up, what was being
read or expected there (the contexts, innermost first), and an optional cause in words.

A failure is either tentative or committed. Alternatives try their branches from the same start
and move on after a tentative failure only; a committed failure ends the whole parse. A parser
commits once it has seen enough of a construct to know that nothing else can stand there. When
every branch fails tentatively, the failure of the last branch is the answer, with the position
where that branch stopped.

Most parsers leave the position where the failing step stood; `tryMap`, `verify` and `andThen`
go back to where they started, as checks on a whole construct do.
-/

namespace WorkLedger.Toml

/-- What a parser was reading, or would have accepted, where it failed. -/
inductive Context where
  /-- The construct being read: "invalid `what`". -/
  | label (what : String)
  /-- A character that would have been accepted. -/
  | char (c : Char)
  /-- A text that would have been accepted. -/
  | text (s : String)
  /-- A description of what would have been accepted. -/
  | description (s : String)

/-- How an expected item is named: a newline by name, other characters and texts between
backquotes (a backquote itself between apostrophes). -/
def Context.expected : Context → String
  | .char '\n' => "newline"
  | .char '\x60' => "'\x60'"
  | .char c => "\x60" ++ c.toString ++ "\x60"
  | .text s => "\x60" ++ s ++ "\x60"
  | .description s => s
  | .label s => s

/-- Why a parse failed. -/
structure Failure where
  /-- Where the reading stood. -/
  pos : Nat
  /-- What was being read or expected, innermost first. -/
  contexts : List Context
  /-- A reason in words, from a check on a whole construct. -/
  cause : Option String
  /-- Whether the failure ends the parse. -/
  committed : Bool

/-- The text of a failure: "invalid" and the first construct being read, then the items that
would have been accepted, then the cause, each on a line of its own. -/
def Failure.message (f : Failure) : String :=
  let label := f.contexts.findSome? fun c => match c with
    | .label s => some s
    | _ => none
  let expected := f.contexts.filter fun c => match c with
    | .label _ => false
    | _ => true
  let parts : List String :=
    (match label with | some l => ["invalid " ++ l] | none => []) ++
    (if expected.isEmpty then [] else ["expected " ++ ", ".intercalate (expected.map (·.expected))]) ++
    (match f.cause with | some c => [c] | none => [])
  "\n".intercalate parts

/-- A parser of byte strings. -/
def Parser (α : Type) : Type := ByteArray → Nat → Except Failure (α × Nat)

namespace Parser

instance : Monad Parser where
  pure a := fun _ pos => .ok (a, pos)
  bind p f := fun input pos =>
    match p input pos with
    | .ok (a, pos') => f a input pos'
    | .error e => .error e

/-- Fails tentatively where it stands. -/
def fail {α : Type} : Parser α := fun _ pos => .error ⟨pos, [], none, false⟩

/-- The position. -/
def position : Parser Nat := fun _ pos => .ok (pos, pos)

/-- The next byte, without reading it. -/
def peek : Parser (Option UInt8) := fun input pos => .ok (input[pos]?, pos)

/-- The next two bytes, without reading them, if there are two. -/
def peekTwo : Parser (Option (UInt8 × UInt8)) := fun input pos =>
  match input[pos]?, input[pos + 1]? with
  | some a, some b => .ok (some (a, b), pos)
  | _, _ => .ok (none, pos)

/-- Reads any byte; fails at the end. -/
def anyByte : Parser UInt8 := fun input pos =>
  match input[pos]? with
  | some b => .ok (b, pos + 1)
  | none => .error ⟨pos, [], none, false⟩

/-- Reads one byte that satisfies `p`. -/
def byteIf (p : UInt8 → Bool) : Parser UInt8 := fun input pos =>
  match input[pos]? with
  | some b => if p b then .ok (b, pos + 1) else .error ⟨pos, [], none, false⟩
  | none => .error ⟨pos, [], none, false⟩

/-- Reads the byte `b`. -/
def byte (b : UInt8) : Parser Unit := fun input pos =>
  match input[pos]? with
  | some c => if c = b then .ok ((), pos + 1) else .error ⟨pos, [], none, false⟩
  | none => .error ⟨pos, [], none, false⟩

/-- Whether `bs` stands in `input` at `pos`. -/
def standsAt (input : ByteArray) (pos : Nat) : List UInt8 → Bool
  | [] => true
  | b :: rest => input[pos]? = some b && standsAt input (pos + 1) rest

/-- Reads the bytes of `s`; fails where it stands if they are not next. -/
def literal (s : String) : Parser Unit := fun input pos =>
  let bs := s.toUTF8.toList
  if standsAt input pos bs then .ok ((), pos + bs.length) else .error ⟨pos, [], none, false⟩

/-- The end of the bytes that satisfy `p` from `pos`, reading at most `limit` of them. -/
def spanWhile (p : UInt8 → Bool) (input : ByteArray) : Nat → Nat → Nat
  | 0, pos => pos
  | limit + 1, pos =>
    match input[pos]? with
    | some b => if p b then spanWhile p input limit (pos + 1) else pos
    | none => pos

/-- Reads between `low` and `high` bytes that satisfy `p`, as many as there are; fails where it
stands if there are fewer than `low`. -/
def takeWhile (low high : Nat) (p : UInt8 → Bool) : Parser (List UInt8) := fun input pos =>
  let stop := spanWhile p input (min high (input.size - pos)) pos
  if stop - pos < low then .error ⟨pos, [], none, false⟩
  else .ok ((input.extract pos stop).toList, stop)

/-- Succeeds at the end of the bytes only. -/
def eof : Parser Unit := fun input pos =>
  if input.size ≤ pos then .ok ((), pos) else .error ⟨pos, [], none, false⟩

/-- Tries `p`, and `q` from the same start after a tentative failure of `p`. -/
def orElse {α : Type} (p q : Parser α) : Parser α := fun input pos =>
  match p input pos with
  | .error e => if e.committed then .error e else q input pos
  | ok => ok

/-- The first branch that does not fail tentatively; the last failure if all do. -/
def firstOf {α : Type} : List (Parser α) → Parser α
  | [] => fail
  | [p] => p
  | p :: ps => orElse p (firstOf ps)

/-- `p`, or nothing (at the start) after a tentative failure. -/
def optional {α : Type} (p : Parser α) : Parser (Option α) := fun input pos =>
  match p input pos with
  | .ok (a, pos') => .ok (some a, pos')
  | .error e => if e.committed then .error e else .ok (none, pos)

/-- `p`, with a tentative failure made committed. -/
def commit {α : Type} (p : Parser α) : Parser α := fun input pos =>
  match p input pos with
  | .error e => .error { e with committed := true }
  | ok => ok

/-- `p`, with `c` added to the contexts of its failure. -/
def context {α : Type} (c : Context) (p : Parser α) : Parser α := fun input pos =>
  match p input pos with
  | .error e => .error { e with contexts := e.contexts ++ [c] }
  | ok => ok

/-- `p`, then a check of its value that may refuse it with a cause; a refusal is a tentative
failure at the start. -/
def tryMap {α β : Type} (p : Parser α) (f : α → Except String β) : Parser β := fun input pos =>
  match p input pos with
  | .ok (a, pos') =>
    match f a with
    | .ok b => .ok (b, pos')
    | .error cause => .error ⟨pos, [], some cause, false⟩
  | .error e => .error e

/-- `p`, then a check of its value; a refusal is a tentative failure at the start. -/
def verify {α : Type} (p : Parser α) (ok : α → Bool) : Parser α := fun input pos =>
  match p input pos with
  | .ok (a, pos') => if ok a then .ok (a, pos') else .error ⟨pos, [], none, false⟩
  | .error e => .error e

/-- `p`, then `q` run on the bytes that `p` read; a failure of `q` goes back to the start. -/
def andThen {α : Type} (p : Parser Unit) (q : Parser α) : Parser α := fun input pos =>
  match p input pos with
  | .ok ((), pos') =>
    match q (input.extract pos pos') 0 with
    | .ok (a, _) => .ok (a, pos')
    | .error e => .error { e with pos := pos }
  | .error e => .error e

/-- The bytes that `p` reads. -/
def recognize {α : Type} (p : Parser α) : Parser (List UInt8) := fun input pos =>
  match p input pos with
  | .ok (_, pos') => .ok ((input.extract pos pos').toList, pos')
  | .error e => .error e

/-- The bytes from the position to the end. -/
def rest : Parser (List UInt8) := fun input pos => .ok ((input.extract pos input.size).toList, input.size)

/-- `p` as many times as it succeeds, at least once if `atLeastOne`; stops before a tentative
failure, and after a success that reads nothing. -/
def many {α : Type} (p : Parser α) (atLeastOne : Bool) : Parser (List α) := fun input pos =>
  let rec go (fuel : Nat) (pos : Nat) (acc : List α) : Except Failure (List α × Nat) :=
    match fuel with
    | 0 => .ok (acc.reverse, pos)
    | fuel + 1 =>
      match p input pos with
      | .ok (a, pos') =>
        if pos' ≤ pos then .ok ((a :: acc).reverse, pos') else go fuel pos' (a :: acc)
      | .error e =>
        if e.committed || (atLeastOne && acc.isEmpty) then .error e else .ok (acc.reverse, pos)
  go (input.size - pos + 1) pos []

/-- One or more `p` separated by `sep`; a separator not followed by `p` is left unread. -/
def separated {α : Type} (p : Parser α) (sep : Parser Unit) : Parser (List α) := fun input pos =>
  let rec go (fuel : Nat) (pos : Nat) (acc : List α) : Except Failure (List α × Nat) :=
    match fuel with
    | 0 => .ok (acc.reverse, pos)
    | fuel + 1 =>
      match sep input pos with
      | .error e => if e.committed then .error e else .ok (acc.reverse, pos)
      | .ok ((), afterSep) =>
        match p input afterSep with
        | .ok (a, pos') => go fuel pos' (a :: acc)
        | .error e => if e.committed then .error e else .ok (acc.reverse, pos)
  match p input pos with
  | .ok (a, pos') => go (input.size - pos' + 1) pos' [a]
  | .error e => .error e

/-- `p`, with the span of bytes it read. -/
def withSpan {α : Type} (p : Parser α) : Parser (α × Nat × Nat) := fun input pos =>
  match p input pos with
  | .ok (a, pos') => .ok ((a, pos, pos'), pos')
  | .error e => .error e

end Parser

end WorkLedger.Toml
