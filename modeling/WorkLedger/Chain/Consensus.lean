import WorkLedger.Chain.Store
import WorkLedger.Ledger.Compact

/-!
# Agreeing on a peer reply

Several peers answer the same query; some have no answer. The most replicated answer wins.
When several answers tie for the most votes, those that link onto a header the local chain
already holds are preferred, and what is still tied is left to chance. The verdict names the
values the final draw chooses among, so that the chance part stays outside the rule.
-/

namespace WorkLedger

/-- Values that name their height and the hash of their parent. -/
class Linked (α : Type) where
  number : α → UInt64
  previous : α → Digest

instance : Linked Header := ⟨Header.blockNumber, Header.previousHash⟩
instance : Linked Block := ⟨Block.blockNumber, fun b => b.header.previousHash⟩
instance : Linked CompactBlock := ⟨fun c => c.header.blockNumber, fun c => c.header.previousHash⟩

/-- How a set of replies was resolved. -/
inductive Verdict (α : Type) where
  /-- Every reply that came was this value. -/
  | unanimous (value : α)
  /-- This value was strictly the most frequent. -/
  | plurality (value : α)
  /-- Values tied for the most votes; these link onto the local chain, and one of them is drawn. -/
  | linkedTie (tied : List α)
  /-- Values tied for the most votes, none linking onto the local chain; one of them is drawn. -/
  | openTie (tied : List α)
  /-- No peer replied. -/
  | notFound

namespace Verdict

/-- The name of the outcome. -/
def name {α : Type} : Verdict α → String
  | .unanimous _ => "Unanimous"
  | .plurality _ => "Plurality"
  | .linkedTie _ => "LinkedTieBreak"
  | .openTie _ => "RandomTieBreak"
  | .notFound => "NotFound"

/-- The values the outcome may settle on. -/
def choices {α : Type} : Verdict α → List α
  | .unanimous v | .plurality v => [v]
  | .linkedTie vs | .openTie vs => vs
  | .notFound => []

/-- The value the outcome settles on when the draw that breaks a tie is `i`: the tied value at
position `i` modulo their number, so that every tied value is some draw's winner. An outcome
with one value settles on it whatever the draw, and nothing found settles on nothing. -/
def draw {α : Type} (v : Verdict α) (i : Nat) : Option α := v.choices[i % v.choices.length]?

end Verdict

namespace Consensus

/-- Adds one vote for `a`: to its entry if an equal value has one, else as a new last entry. -/
def vote {α : Type} [BEq α] (a : α) : List (α × Nat) → List (α × Nat)
  | [] => [(a, 1)]
  | (v, n) :: rest => if v == a then (v, n + 1) :: rest else (v, n) :: vote a rest

/-- The distinct values with their vote counts, in the order they first appeared. -/
def tally {α : Type} [BEq α] (answers : List α) : List (α × Nat) :=
  answers.foldl (fun acc a => vote a acc) []

/-- The values that received the most votes, in the order they first appeared. -/
def leaders {α : Type} [BEq α] (answers : List α) : List α :=
  let counts := tally answers
  let top := counts.foldl (fun m e => max m e.2) 0
  (counts.filter (·.2 == top)).map (·.1)

/-- Whether `a` follows the local chain's block numbered just below it. -/
def linksLocally {α : Type} [Linked α] (store : Store) (a : α) : Bool :=
  let n := Linked.number a
  n != 0 && match store.header? (n - 1).toNat with
    | some held => held.hash == Linked.previous a
    | none => false

/-- Resolves the replies against the local chain. -/
def select {α : Type} [BEq α] [Linked α] (store : Store) (replies : List (Option α)) : Verdict α :=
  let answers := replies.filterMap id
  match answers with
  | [] => .notFound
  | first :: _ =>
    if answers.all (· == first) then .unanimous first
    else
      match leaders answers with
      | [only] => .plurality only
      | tied =>
        match tied.filter (linksLocally store) with
        | [] => .openTie tied
        | linked => .linkedTie linked

end Consensus

end WorkLedger
