import WorkLedger.Mining.Solve

/-!
# The first block

A chain starts with a block that carries the placeholder alone, links to the zero digest, is
signed `genesis`, and has the configured version, timestamp and difficulty; its nonce is the
first from zero whose hash meets the target.
-/

namespace WorkLedger

/-- The header template of the first block of a chain with parameters `p`: the placeholder's
Merkle root, the zero digest as previous hash, and the configured version, timestamp and
difficulty, signed `genesis`. -/
def Block.genesisTemplate (p : ChainParams) : HeaderFields :=
  ⟨p.headerVersion, p.chainName, 0, Digest.zero, Merkle.root [Transaction.placeholder],
    p.genesisTimestampMs, p.initialDifficulty, 0, "genesis"⟩

/-- The first block made of the header its search found, carrying the placeholder alone. -/
def Block.ofGenesisSearch (found : Option Header) : Except LedgerError Block :=
  match found with
  | some h => .ok ⟨h, [Transaction.placeholder]⟩
  | none => .error (.illegalArgument "genesis search ended without a solution")

/-- The first block of a chain with parameters `p`, its search allowed `budget` attempts. The
search for a first block is never told to stop, so the first block is this one for every
budget past the attempts the search takes; only a budget used up before a solution gives the
error. -/
def Block.genesis (p : ChainParams) (budget : Nat) : Except LedgerError Block :=
  Block.ofGenesisSearch
    (Mining.solve (Block.genesisTemplate p) (Target.ofDifficulty p p.initialDifficulty)
      budget).header

end WorkLedger
