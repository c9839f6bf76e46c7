import WorkLedger.Chain.Validation
import WorkLedger.Node.Pool

/-!
# A node: its chain and its pool

A node holds the settings of its chain, the chain itself and the pool of pending transactions.
It takes a block only on top of its head: the block must pass every rule of the validator
against the head, with the last `retargetInterval + 1` headers of the chain as the window for
retargeting, and must then continue the chain. The block's transactions then leave the pool.

* `Node.acceptBlock` adds a block or says why not (`Refusal`).
* `Node.addTransaction` puts a transaction into the pool.
-/

namespace WorkLedger

/-- Why a node does not take a block. -/
inductive Refusal where
  /-- The node has no chain to build on. -/
  | noGenesis
  /-- The block breaks a rule of the validator. -/
  | invalid (r : Rejection)
  /-- The block passed the rules but does not continue the chain. -/
  | unappendable (e : LedgerError)

/-- The reason, in words: what the node sends back to whoever offered the block. -/
def Refusal.message : Refusal → String
  | .noGenesis => "local chain has no genesis block"
  | .invalid r => r.message
  | .unappendable e => e.message

/-- A node's chain settings, chain and pool. -/
structure Node where
  params : ChainParams
  chain : Store
  pool : Pool
  deriving Inhabited

namespace Node

/-- A node with a chain and an empty pool. -/
def make (p : ChainParams) (chain : Store) : Node := ⟨p, chain, Pool.empty⟩

/-- The headers a block on top of the head is checked with: enough for the retarget lookback,
so that it never needs the rest of the chain. -/
def window (n : Node) : List Header :=
  n.chain.recentHeaders (n.params.retargetInterval.toNat + 1)

/-- Takes a block on top of the head: it is checked against the head (the clock rule only when
`checkTime`, against `now`), appended, and its transactions leave the pool. -/
def acceptBlock (n : Node) (b : Block) (checkTime : Bool) (now : Int64) : Except Refusal Node := do
  let some head := n.chain.head? | .error .noGenesis
  let v : Validator := ⟨n.params, n.chain⟩
  match v.check b (some head.header) checkTime now n.window with
  | .error r => .error (.invalid r)
  | .ok () =>
    match n.chain.append b with
    | .error e => .error (.unappendable e)
    | .ok chain => .ok { n with chain, pool := n.pool.prune b.transactions }

/-- Puts a transaction into the pool: whether it was new, and the node after. -/
def addTransaction (n : Node) (t : Transaction) : Except PoolError (Bool × Node) := do
  let (added, pool) ← n.pool.add t
  pure (added, { n with pool })

end Node

end WorkLedger
