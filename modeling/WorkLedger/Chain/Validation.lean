import WorkLedger.Chain.Retarget
import WorkLedger.Chain.Target
import WorkLedger.Text.Quoted

/-!
# Validating a block

A block is checked against a previous header by rules taken in a fixed order; the first rule it
breaks is the answer. The block's transactions must hash to its Merkle root, it must carry the
chain's name, and its stored hash must be the hash of its fields. A block after the first must
follow its previous header by number and hash and declare the difficulty that retargeting gives.
Every block must meet the target of its own difficulty, and, when asked, lie within the
tolerated clock skew of the local time.
-/

namespace WorkLedger

/-- The first rule a block broke. -/
inductive Rejection where
  | merkleRoot (stored computed : Digest)
  | chainName (expected found : String)
  | headerHash (stored computed : Digest)
  | missingPrevious (number : UInt64)
  | blockNumber (previous found : UInt64)
  | previousHash (expected found : Digest)
  | difficulty (expected found : Decimal)
  | difficultyUnavailable (number : UInt64) (cause : String)
  | proofOfWork (hash : Digest)
  | timestamp (timestamp : Int64) (skewMs : Nat)

namespace Rejection

/-- The name of the rule. -/
def rule : Rejection → String
  | .merkleRoot .. => "MerkleRoot"
  | .chainName .. => "ChainName"
  | .headerHash .. => "HeaderHash"
  | .missingPrevious .. => "MissingPrevious"
  | .blockNumber .. => "BlockNumber"
  | .previousHash .. => "PreviousHash"
  | .difficulty .. => "Difficulty"
  | .difficultyUnavailable .. => "DifficultyUnavailable"
  | .proofOfWork .. => "ProofOfWork"
  | .timestamp .. => "Timestamp"

/-- What was wrong, in words. -/
def message : Rejection → String
  | .merkleRoot s c => "merkle root mismatch: stored " ++ s.hex ++ ", computed " ++ c.hex
  | .chainName e f => "chain name " ++ Text.quoteString f ++ " is not " ++ Text.quoteString e
  | .headerHash s c => "stored header hash " ++ s.hex ++ " does not match computed " ++ c.hex
  | .missingPrevious n => "block #" ++ toString n ++ " has no previous header to link to"
  | .blockNumber p f => "block #" ++ toString f ++ " does not follow block #" ++ toString p
  | .previousHash e f => "previous hash " ++ f.hex ++ " does not match " ++ e.hex
  | .difficulty e f => "declared difficulty " ++ f.toText ++ " differs from expected " ++ e.toText
  | .difficultyUnavailable n cause =>
    "expected difficulty for block #" ++ toString n ++ " could not be computed: " ++ cause
  | .proofOfWork h => "header hash " ++ h.hex ++ " does not meet its target"
  | .timestamp t s => "timestamp " ++ toString t.toInt ++ " is " ++ toString s ++
    "ms away from local time"

end Rejection

/-- What a block is checked against: the chain's settings and its stored blocks. -/
structure Validator where
  params : ChainParams
  store : Store

namespace Validator

/-- Fails with `r` when `ok` does not hold. -/
def require (ok : Bool) (r : Rejection) : Except Rejection Unit :=
  if ok then .ok () else .error r

/-- The rules that tie a block after the first to its previous header: it has one, follows it
by number and hash, and declares the difficulty that retargeting after it gives. -/
def checkLinkage (v : Validator) (h : Header) (previous : Option Header) (window : List Header) :
    Except Rejection Unit := do
  let some prev := previous | .error (.missingPrevious h.blockNumber)
  require (h.blockNumber == prev.blockNumber + 1) (.blockNumber prev.blockNumber h.blockNumber)
  require (h.previousHash == prev.hash) (.previousHash prev.hash h.previousHash)
  match Retarget.next v.params v.store prev window with
  | .error e => .error (.difficultyUnavailable h.blockNumber e.message)
  | .ok expected => require (expected == h.difficulty) (.difficulty expected h.difficulty)

/-- The distance in milliseconds between a header's timestamp and the local time. -/
def skewMs (now timestamp : Int64) : Nat := (now.toInt - timestamp.toInt).natAbs

/-- Checks `b` after `previous` by every rule in order, stopping at the first it breaks; the
clock rule applies only when `checkTime` is set, against the local time `now` in
milliseconds. -/
def check (v : Validator) (b : Block) (previous : Option Header) (checkTime : Bool) (now : Int64)
    (window : List Header) : Except Rejection Unit := do
  let h := b.header
  let root := Merkle.root b.transactions
  require (root == h.merkleRoot) (.merkleRoot h.merkleRoot root)
  require (h.fields.chainName == v.params.chainName) (.chainName v.params.chainName h.fields.chainName)
  let computed := h.fields.hash
  require (computed == h.hash) (.headerHash h.hash computed)
  if 0 < h.blockNumber then v.checkLinkage h previous window
  require (Target.headerMeets v.params h) (.proofOfWork h.hash)
  if checkTime then
    let skew := skewMs now h.timestamp
    require (skew ≤ v.params.maxTimestampSkewMs.natAbs) (.timestamp h.timestamp skew)

end Validator

end WorkLedger
