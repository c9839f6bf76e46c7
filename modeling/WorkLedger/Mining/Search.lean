import WorkLedger.Mining.Solve

/-!
# Mining a block

A search mines the block after a previous header: it takes a candidate set of transactions
(with more than one transaction, placeholders are dropped; an empty set becomes the
placeholder alone), builds the header template, and looks for a nonce. Its state moves only
from `created` to `running`, and from there to `found` or `halted`; stopping halts a search
that has not found its block and reports whether it did so.

A coordinator owns at most one search at a time. Starting a search halts the previous one. A
search that carries only the placeholder should give way when real transactions are pending
or when it has waited long enough.
-/

namespace WorkLedger.Mining

/-- Where a search stands. -/
inductive SearchState where
  | created
  | running
  | found
  | halted
  deriving DecidableEq, Repr, Inhabited

/-- The name of a state. -/
def SearchState.name : SearchState → String
  | .created => "Created"
  | .running => "Running"
  | .found => "Found"
  | .halted => "Halted"

/-- The transactions a block is mined with: with more than one, all placeholders are dropped;
an empty set becomes the placeholder alone. -/
def candidateSet (txs : List Transaction) : List Transaction :=
  let kept := if 1 < txs.length then txs.filter (!·.isPlaceholder) else txs
  if kept.isEmpty then [Transaction.placeholder] else kept

/-- A search for the block after a previous header. -/
structure Search where
  template : HeaderFields
  transactions : List Transaction
  target : Digest
  state : SearchState
  deriving Inhabited

namespace Search

/-- The search for the block after `previous`, with the given transactions, difficulty,
timestamp and signature; a signature longer than fifty characters is refused at once. -/
def make (p : ChainParams) (previous : Header) (txs : List Transaction) (difficulty : Decimal)
    (timestamp : Int64) (signature : String) : Except LedgerError Search := do
  let transactions := candidateSet txs
  let template : HeaderFields :=
    ⟨p.headerVersion, p.chainName, previous.blockNumber + 1, previous.hash,
      Merkle.root transactions, timestamp, difficulty, 0, signature⟩
  let _ ← template.sealed
  pure ⟨template, transactions, Target.ofDifficulty p difficulty, .created⟩

/-- The number of the block being mined. -/
def blockNumber (s : Search) : UInt64 := s.template.blockNumber

/-- Whether the block carries only the placeholder. -/
def placeholderOnly (s : Search) : Bool := s.transactions.all (·.isPlaceholder)

/-- Halts a search that is created or running; says whether it did. -/
def stop (s : Search) : Bool × Search :=
  match s.state with
  | .created | .running => (true, { s with state := .halted })
  | _ => (false, s)

/-- Runs a created search with a budget of attempts: the block if found (the search is then
`found`), nothing if the search was not created or the budget ran out (it stays `running`). -/
def run (s : Search) (budget : Nat) : Option Block × Search :=
  match s.state with
  | .created =>
    match (solve s.template s.target budget).header with
    | some h => (some ⟨h, s.transactions⟩, { s with state := .found })
    | none => (none, { s with state := .running })
  | _ => (none, s)

end Search

/-- The attempts a search makes before it counts as running forever. -/
def searchBudget : Nat := 2000000

/-- A coordinator: the settings and signature of its blocks, and the current search. -/
structure Coordinator where
  params : ChainParams
  signature : String
  current : Option Search
  deriving Inhabited

namespace Coordinator

/-- A coordinator without a search. -/
def make (p : ChainParams) (signature : String) : Coordinator := ⟨p, signature, none⟩

/-- Halts and forgets the current search, returning the state it ended in. -/
def halt (c : Coordinator) : Option SearchState × Coordinator :=
  match c.current with
  | none => (none, c)
  | some s => (some (s.stop).2.state, { c with current := none })

/-- Halts the current search and starts one for the block after `previous`. A search that
cannot be built leaves the coordinator without one, and says why. -/
def start (c : Coordinator) (previous : Header) (txs : List Transaction) (difficulty : Decimal)
    (timestamp : Int64) : Coordinator × Except LedgerError Unit :=
  let c := (c.halt).2
  match Search.make c.params previous txs difficulty timestamp c.signature with
  | .ok s => ({ c with current := some { s with state := .running } }, .ok ())
  | .error e => (c, .error e)

/-- Waits for the block of the current search: it arrives once, when the search finds it within
the search budget; nothing arrives from a search that has already delivered its block, or when
there is no search. -/
def wait (c : Coordinator) : Option Block × Coordinator :=
  match c.current with
  | some s =>
    if s.state = .running then
      match (solve s.template s.target searchBudget).header with
      | some h => (some ⟨h, s.transactions⟩, { c with current := some { s with state := .found } })
      | none => (none, c)
    else (none, c)
  | none => (none, c)

/-- Whether the current search should give way: it carries only the placeholder, is still
going, and real transactions are pending or it has waited `waited` seconds, as long as it may. -/
def needsRestart (c : Coordinator) (pending : Bool) (waited : Nat) : Bool :=
  match c.current with
  | some s =>
    s.placeholderOnly && (s.state == .created || s.state == .running) &&
      (pending || c.params.maxPlaceholderWaitSecs.toNat ≤ waited)
  | none => false

end Coordinator

end WorkLedger.Mining
