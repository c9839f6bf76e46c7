import WorkLedger.Mining.Search

/-!
# Searches raced by the threads that stop them

A search's state is one atomic cell, shared by the thread that runs the search and by every
caller that stops it, and each change to it is one compare-and-swap
(`SearchState.transition`). Here a search runs as those threads run it, one atomic step at a
time, in any order a schedule gives:

* the worker moves the cell from `created` to `running`; then, before each attempt, it reads
  the cell and gives up once the search is no longer running; with a solution it moves the
  cell from `running` to `found`, returns the block when that succeeds, and, as a spawned
  worker, sends it on the channel before its thread exits;
* a stop tries `running` to `halted`, then `created` to `halted`, and returns whether one of
  the two succeeded; a drop of a handle is a stop whose answer nobody reads;
* a halt stops, waits for the worker's thread to exit, and reads the cell.

A thread that cannot move when the schedule names it lets the step pass. Hashing a candidate
touches nothing shared, so the read before an attempt and the attempt are one step.

A coordinator owns one search at a time. Its calls run on its own thread, one after another:
a halt takes the current search away and halts it as above, and a start halts the current
search and then starts a new one. Meanwhile the workers of all its searches keep stepping.
-/

namespace WorkLedger.Mining

namespace SearchState

/-- One compare-and-swap on the cell: `new` in place of `old` when the cell holds `old`, and
whether it did. -/
def transition (cell old new : SearchState) : Bool × SearchState :=
  if cell = old then (true, new) else (false, cell)

/-- Whether a search is still going: created or running. -/
def live : SearchState → Bool
  | .created | .running => true
  | .found | .halted => false

end SearchState

/-- Where the thread running a search stands. -/
inductive Worker where
  /-- About to move the cell from `created` to `running`. -/
  | start
  /-- About to read the cell and, while the search is running, try `candidate`. -/
  | solving (candidate : HeaderFields)
  /-- Holding a solution, about to move the cell from `running` to `found`. -/
  | solved (header : Header)
  /-- The run has returned `block`; a spawned worker sends it next, if there is one. -/
  | returned (block : Option Block)
  /-- The spawned worker's thread has exited. -/
  | exited

/-- What a caller asked of the search. -/
inductive Call where
  /-- Halt the search and say whether this call did it. -/
  | stop
  /-- Stop, wait for the worker's thread to exit, and report the state it ended in. -/
  | halt
  deriving DecidableEq

/-- Where a caller stands. -/
inductive Caller where
  /-- About to try `running` to `halted`. -/
  | first (call : Call)
  /-- The first try failed; about to try `created` to `halted`. -/
  | second (call : Call)
  /-- A halt whose stop returned `won`, waiting for the worker's thread to exit. -/
  | joining (won : Bool)
  /-- A stop that returned `won`. -/
  | stopped (won : Bool)
  /-- A halt whose stop returned `won`, and that returned `state`. -/
  | joined (won : Bool) (state : SearchState)

namespace Caller

/-- Whether the caller's stop returned true. -/
def won : Caller → Bool
  | .joining w | .stopped w | .joined w _ => w
  | .first _ | .second _ => false

end Caller

/-- Where a caller goes once its stop returned `won`: a stop is done, a halt goes on to
wait for the worker. -/
def Call.afterStop : Call → Bool → Caller
  | .stop, won => .stopped won
  | .halt, won => .joining won

/-- A search being run and stopped: the search, whose `state` is the shared cell, the thread
running it, the callers in the order they came, and the blocks sent on the channel. -/
structure SearchRace where
  search : Search
  worker : Worker
  callers : List Caller
  sent : List Block

/-- Who takes the next step of a search. -/
inductive SearchActor where
  | worker
  | caller (i : Nat)
  /-- A new caller comes with its call. -/
  | arrive (call : Call)

namespace SearchRace

/-- A new search: the cell `created`, the worker about to start, nobody stopping it. -/
def begin (s : Search) : SearchRace := ⟨{ s with state := .created }, .start, [], []⟩

/-- The race with `cell` in the cell. -/
def setCell (r : SearchRace) (cell : SearchState) : SearchRace :=
  { r with search := { r.search with state := cell } }

/-- The worker's next atomic step. -/
def workerStep (r : SearchRace) : SearchRace :=
  match r.worker with
  | .start =>
    match r.search.state.transition .created .running with
    | (true, cell) => { r.setCell cell with worker := .solving { r.search.template with nonce := 0 } }
    | (false, _) => { r with worker := .returned none }
  | .solving f =>
    if r.search.state = .running then
      if f.hash.meets r.search.target then { r with worker := .solved ⟨f, f.hash⟩ }
      else { r with worker := .solving (HeaderFields.bump f) }
    else { r with worker := .returned none }
  | .solved h =>
    match r.search.state.transition .running .found with
    | (true, cell) => { r.setCell cell with worker := .returned (some ⟨h, r.search.transactions⟩) }
    | (false, _) => { r with worker := .returned none }
  | .returned (some b) => { r with worker := .exited, sent := r.sent ++ [b] }
  | .returned none => { r with worker := .exited }
  | .exited => r

/-- Caller `i`'s next atomic step. -/
def callerStep (r : SearchRace) (i : Nat) : SearchRace :=
  match r.callers[i]? with
  | some (.first c) =>
    match r.search.state.transition .running .halted with
    | (true, cell) => { r.setCell cell with callers := r.callers.set i (c.afterStop true) }
    | (false, _) => { r with callers := r.callers.set i (.second c) }
  | some (.second c) =>
    match r.search.state.transition .created .halted with
    | (true, cell) => { r.setCell cell with callers := r.callers.set i (c.afterStop true) }
    | (false, _) => { r with callers := r.callers.set i (c.afterStop false) }
  | some (.joining won) =>
    match r.worker with
    | .exited => { r with callers := r.callers.set i (.joined won r.search.state) }
    | _ => r
  | _ => r

/-- One atomic step by `a`. -/
def step (r : SearchRace) : SearchActor → SearchRace
  | .worker => r.workerStep
  | .caller i => r.callerStep i
  | .arrive c => { r with callers := r.callers ++ [.first c] }

/-- The steps of a schedule, in order. -/
def run (r : SearchRace) (schedule : List SearchActor) : SearchRace := schedule.foldl step r

end SearchRace

/-- What a start is given: the header the block follows, its transactions, difficulty and
timestamp. -/
structure StartCall where
  previous : Header
  transactions : List Transaction
  difficulty : Decimal
  timestamp : Int64

/-- A call on the coordinator. -/
inductive CoordinatorCall where
  | start (call : StartCall)
  | halt

/-- Where the coordinator's own thread stands. -/
inductive Owner where
  /-- Between calls. -/
  | idle
  /-- Halting search `search` as its caller `caller`, then starting `next` if given. -/
  | halting (search caller : Nat) (next : Option StartCall)
  /-- About to build and spawn the search of a start. -/
  | starting (call : StartCall)

/-- A coordinator at work: its settings and signature, the searches it started, oldest first,
the index of the current one, its thread, and the calls it has yet to make. -/
structure CoordinatorRace where
  params : ChainParams
  signature : String
  searches : List SearchRace
  current : Option Nat
  owner : Owner
  calls : List CoordinatorCall

/-- Who takes the next step: the coordinator's thread or the worker of a search. -/
inductive CoordinatorActor where
  | owner
  | worker (i : Nat)

namespace CoordinatorRace

/-- A coordinator with no search yet, about to make `calls`. -/
def begin (c : Coordinator) (calls : List CoordinatorCall) : CoordinatorRace :=
  ⟨c.params, c.signature, [], none, .idle, calls⟩

/-- Where the coordinator's thread goes when a halt is done: to the start that follows it,
if any. -/
def Owner.afterHalt : Option StartCall → Owner
  | some call => .starting call
  | none => .idle

/-- The coordinator's next atomic step. A call begins by taking the current search away and
adding itself as a halt caller of that search; each later step is a step of that caller; the
start that follows builds the new search and spawns its worker. -/
def ownerStep (m : CoordinatorRace) : CoordinatorRace :=
  match m.owner with
  | .idle =>
    match m.calls with
    | [] => m
    | call :: rest =>
      let next := match call with
        | .start c => some c
        | .halt => none
      match m.current with
      | some i =>
        { m with calls := rest, current := none,
                 searches := m.searches.modify i (·.step (.arrive .halt)),
                 owner := .halting i ((m.searches[i]?.map (·.callers.length)).getD 0) next }
      | none => { m with calls := rest, owner := Owner.afterHalt next }
  | .halting i k next =>
    let searches := m.searches.modify i (·.step (.caller k))
    match searches[i]?.bind (·.callers[k]?) with
    | some (.joined _ _) => { m with searches, owner := Owner.afterHalt next }
    | _ => { m with searches }
  | .starting c =>
    match Search.make m.params c.previous c.transactions c.difficulty c.timestamp m.signature with
    | .ok s =>
      { m with searches := m.searches ++ [SearchRace.begin s], current := some m.searches.length,
               owner := .idle }
    | .error _ => { m with owner := .idle }

/-- One atomic step by `a`. -/
def step (m : CoordinatorRace) : CoordinatorActor → CoordinatorRace
  | .owner => m.ownerStep
  | .worker i => { m with searches := m.searches.modify i SearchRace.workerStep }

/-- The steps of a schedule, in order. -/
def run (m : CoordinatorRace) (schedule : List CoordinatorActor) : CoordinatorRace :=
  schedule.foldl step m

end CoordinatorRace

end WorkLedger.Mining
