import WorkLedger.Chain.Store
import WorkLedger.Chain.Params

/-!
# Retargeting the difficulty

Every `retargetInterval` blocks the difficulty follows the time the last interval took. After
block `n` with `(n + 1) % interval = 0`, the block `interval` numbers earlier (or block zero) is
looked up, first in a window of headers and then in the chain; the seconds between the two
timestamps (each truncated to whole seconds, at least one second in all) give the coefficient
`interval · blockTime / elapsed`, rounded half to even at 40 places, and the new difficulty is
the old one times the coefficient, rounded half to even at 20 places and never below one.
Other blocks keep their difficulty as written.
-/

namespace WorkLedger.Retarget

/-- Places kept by the retarget coefficient. -/
def coefficientScale : Int := 40

/-- Places kept by a retargeted difficulty. -/
def difficultyScale : Int := 20

/-- The header numbered `n`: the first in the window with that number, else the chain's. -/
def lookup (store : Store) (window : List Header) (n : UInt64) : Except LedgerError Header :=
  match window.find? (·.blockNumber == n) with
  | some h => .ok h
  | none =>
    match store.header? n.toNat with
    | some h => .ok h
    | none => .error (.headerNotFound n)

/-- Whole seconds between two millisecond timestamps, each truncated towards zero, at least
one. -/
def elapsedSeconds (later earlier : Int64) : Int :=
  max 1 ((later / 1000).toInt - (earlier / 1000).toInt)

/-- The difficulty after `elapsed` seconds for an interval planned to take `planned` seconds. -/
def adjust (difficulty : Decimal) (planned : Nat) (elapsed : Int) : Decimal :=
  let coefficient := (Decimal.ofInt planned / Decimal.ofInt elapsed).roundTo coefficientScale .halfEven
  ((difficulty * coefficient).roundTo difficultyScale .halfEven).maxRight Decimal.one

/-- The difficulty of the block after `h`. -/
def next (p : ChainParams) (store : Store) (h : Header) (window : List Header) :
    Except LedgerError Decimal :=
  let interval := p.retargetInterval
  if (h.blockNumber + 1) % interval ≠ 0 then .ok h.difficulty
  else do
    let earlier ← lookup store window (h.blockNumber - min h.blockNumber interval)
    let elapsed := elapsedSeconds h.timestamp earlier.timestamp
    pure (adjust h.difficulty (interval.toNat * p.targetSecondsPerBlock.toNat) elapsed)

end WorkLedger.Retarget
