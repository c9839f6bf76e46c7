import WorkLedger.Node.Service
import WorkLedger.Chain.Consensus

/-!
# Talking to peers

A node asks its peers one request at a time, each over a connection of its own, and counts a
peer that could not be reached, or answered with the wrong kind of message, as giving no
answer. The answers are resolved by consensus against the local chain.

* `Network` says what a request to a peer brings back. In `Network.isolated` no peer can be
  reached; in `Network.direct` a node serves the request at once.
* `Node.query` sends a request to every peer; it fails with `peerUnavailable` when no peer was
  reached at all.
* `Node.fetchHead` and `Node.fetchBlock` resolve the peers' answers by consensus.
* `Node.sync` takes the blocks the peers agree on, one after another, until they have none or
  the node refuses one. Ties among the peers' blocks are broken by a sequence of draws, and the
  loop runs on fuel that a caller gives past the length of the run.
* `Network.ping` tells which peers echo a ping; `Network.broadcast` sends a message to every
  peer.
-/

namespace WorkLedger

/-- A peer as the querying node reaches it. -/
inductive Peer where
  /-- A node that serves its chain and pool. -/
  | node (n : Node)
  /-- An address where nothing listens. -/
  | closed
  /-- A peer that accepts a connection and closes it without a word. -/
  | silent
  deriving Inhabited

/-- What one request to a peer brings back, with the peer after it; nothing when the exchange
fails. -/
abbrev Network := Peer → Message → Option (Message × Peer)

/-- A network in which no connection to a peer can be made. -/
def Network.isolated : Network := fun _ _ => none

/-- A reply as the asking side reads it from the frame it is sent in; nothing when it cannot
be sent or read. -/
def Message.readBack (r : Message) : Option Message :=
  match r.frame.bind (Message.receive .awaiting) with
  | .ok (r', _) => some r'
  | .error _ => none

/-- A network in which a request reaches a node at once: the node serves the request's frame,
and its first reply comes back as it reads from the frame it was sent in. An offered block is
checked against the clock `now`. -/
def Network.direct (now : Int64) : Network
  | .node n, m =>
    match m.frame with
    | .error _ => none
    | .ok bytes =>
      let (replies, _, n') := n.serve now bytes
      (replies.head?.bind Message.readBack).map fun r => (r, .node n')
  | _, _ => none

/-- Sends `m` to every peer in order: each peer's reply, if the exchange succeeded, and the
peers after. -/
def Network.exchangeAll (net : Network) (m : Message) : List Peer → List (Option Message) × List Peer
  | [] => ([], [])
  | p :: ps =>
    let (reply, p') := match net p m with
      | some (r, p') => (some r, p')
      | none => (none, p)
    let (replies, ps') := net.exchangeAll m ps
    (reply :: replies, p' :: ps')

namespace Node

/-- The peers' answers to `m`, each reply read by `extract`; `peerUnavailable` when no exchange
succeeded. -/
def query {α : Type} (net : Network) (peers : List Peer) (m : Message)
    (extract : Message → Option α) : Except LedgerError (List (Option α)) :=
  let replies := (net.exchangeAll m peers).1
  if replies.any Option.isSome then .ok (replies.map (·.bind extract))
  else .error .peerUnavailable

/-- The peers' answers to `m`, resolved by consensus against the node's chain. -/
def fetch {α : Type} [BEq α] [Linked α] (n : Node) (net : Network) (peers : List Peer)
    (m : Message) (extract : Message → Option α) : Except LedgerError (Verdict α) := do
  let replies ← query net peers m extract
  pure (Consensus.select n.chain replies)

/-- The head the peers agree on. -/
def fetchHead (n : Node) (net : Network) (peers : List Peer) : Except LedgerError (Verdict Header) :=
  n.fetch net peers .fetchHead fun
    | .headReply h => h
    | _ => none

/-- Block number `k` as the peers agree on it. -/
def fetchBlock (n : Node) (net : Network) (peers : List Peer) (k : UInt64) :
    Except LedgerError (Verdict Block) :=
  n.fetch net peers (.fetchBlockByNumber k) fun
    | .blockReply b => b
    | _ => none

/-- The block the peers agree on at the node's height, if they agree on one, with the draw `i`
breaking a tie. -/
def agreedBlock (n : Node) (net : Network) (peers : List Peer) (i : Nat) : Option Block :=
  match n.fetchBlock net peers n.chain.height.toUInt64 with
  | .ok v => v.draw i
  | .error _ => none

/-- Takes the block after the head from the peers, for at most `fuel` rounds, counting from
`added`: stops when the peers have no such block or the node refuses it. The round that asks
for height `h` breaks a tie with the draw `draws h`; each round asks for a height one above the
last, so each round has a draw of its own. -/
def syncBlocks (net : Network) (peers : List Peer) (draws : Nat → Nat) :
    Nat → Node → Nat → Nat × Node
  | 0, n, added => (added, n)
  | fuel + 1, n, added =>
    match n.agreedBlock net peers (draws n.chain.height) with
    | none => (added, n)
    | some b =>
      match n.acceptBlock b false 0 with
      | .error _ => (added, n)
      | .ok n' => syncBlocks net peers draws fuel n' (added + 1)

/-- Brings the chain up to what the peers hold, for at most `fuel` rounds: the number of
blocks added and the node after. Nothing happens without peers, or when no peer tells its
head. The loop itself has no bound; it ends at the first height where the peers agree on no
block or the node refuses theirs, and any fuel past that round gives its end. -/
def sync (n : Node) (net : Network) (peers : List Peer) (draws : Nat → Nat) (fuel : Nat) :
    Nat × Node :=
  if peers.isEmpty then (0, n)
  else
    match n.fetchHead net peers with
    | .error _ => (0, n)
    | .ok _ => syncBlocks net peers draws fuel n 0

end Node

/-- Which peers answer a ping with identifier `id` by echoing it. -/
def Network.ping (net : Network) (peers : List Peer) (id : Uuid) : List Bool :=
  (net.exchangeAll (.ping id) peers).1.map fun
    | some (.pong echoed) => echoed == id
    | _ => false

/-- Sends `m` to every peer, whatever each answers: the peers after. -/
def Network.broadcast (net : Network) (peers : List Peer) (m : Message) : List Peer :=
  (net.exchangeAll m peers).2

end WorkLedger
