import WorkLedger.Chain.Target

/-!
# Solving a header

The proof-of-work search tries the candidates of a header template in order: the nonce runs
from zero upwards, and when it would pass `2^32 - 1` it returns to zero while the timestamp
moves on by one millisecond. Before each attempt the searcher is asked whether to go on; the
first candidate whose hash meets the target is sealed with that hash.

The searcher's answers are modelled by a budget: it says yes to the first `budget` questions
and no to the next, so a search ends after at most `budget` attempts and reports how many
questions it asked.
-/

namespace WorkLedger.Mining

/-- The candidate after `f`: the next nonce, or nonce zero one millisecond later. -/
def HeaderFields.bump (f : HeaderFields) : HeaderFields :=
  if f.nonce = 0xFFFFFFFF then { f with nonce := 0, timestamp := f.timestamp + 1 }
  else { f with nonce := f.nonce + 1 }

/-- The outcome of a search: the solved header, if any, and the questions asked. -/
structure Outcome where
  header : Option Header
  polls : Nat

/-- Tries candidates from `f` on with `budget` more yes-answers, having asked `asked`. -/
def searchFrom (target : Digest) : Nat → Nat → HeaderFields → Outcome
  | 0, asked, _ => ⟨none, asked + 1⟩
  | budget + 1, asked, f =>
    let h := f.hash
    if h.meets target then ⟨some ⟨f, h⟩, asked + 1⟩
    else searchFrom target budget (asked + 1) (HeaderFields.bump f)

/-- Searches the candidates of `template` from nonce zero, attempting at most `budget`. -/
def solve (template : HeaderFields) (target : Digest) (budget : Nat) : Outcome :=
  searchFrom target budget 0 { template with nonce := 0 }

end WorkLedger.Mining
