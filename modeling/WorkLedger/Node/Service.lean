import WorkLedger.Node.Basic
import WorkLedger.Network.Frame

/-!
# Serving a connection

A node answers the messages that arrive on a connection, one frame at a time, until the other
side stops sending. Requests for blocks, heads and membership proofs are answered from the
chain, offered blocks and transactions are taken or refused, and a ping is echoed. A message
that is itself a reply closes the connection without an answer.

* `Node.respond` answers one message.
* `Node.serve` reads every frame of what arrived and collects the replies. A stream that ends,
  even inside a frame, closes the connection normally; a frame that is too large or does not
  hold a message ends it with an error (`Closing`).
-/

namespace WorkLedger

/-- How a connection ended. -/
inductive Closing where
  /-- The other side stopped sending, or sent a reply where a request was due. -/
  | finished
  /-- A frame could not be received. -/
  | unreadable (e : FrameError)
  /-- A reply could not be sent. -/
  | unsendable (e : FrameError)

/-- The error a connection ended with, in words, if any. -/
def Closing.error? : Closing → Option String
  | .finished => none
  | .unreadable e => some ("Error receiving message: " ++ e.message)
  | .unsendable e => some ("Failed to send reply: " ++ e.message)

namespace Node

/-- The proof that `t` is in block number `k`, if both exist. -/
def compactBlock? (n : Node) (k : UInt64) (t : Transaction) : Option CompactBlock :=
  (n.chain.block? k.toNat).bind fun b =>
    match CompactBlock.ofBlock b t with
    | .ok c => some c
    | .error _ => none

/-- The answer to one message and the node after it; none for a message that is a reply. An
offered block is checked against the clock `now`. -/
def respond (n : Node) (now : Int64) : Message → Option Message × Node
  | .fetchBlockByNumber k => (some (.blockReply (n.chain.block? k.toNat)), n)
  | .fetchBlockByHash h => (some (.blockReply (n.chain.blockByHash? h)), n)
  | .fetchHead => (some (.headReply (n.chain.head?.map (·.header))), n)
  | .fetchCompactBlock k t => (some (.compactBlockReply (n.compactBlock? k t)), n)
  | .newBlock b =>
    match n.acceptBlock b true now with
    | .ok n' => (some .blockAccepted, n')
    | .error r => (some (.blockRejected r.message), n)
  | .newTransaction t =>
    match n.addTransaction t with
    | .ok (_, n') => (some .transactionAccepted, n')
    | .error e => (some (.transactionRejected e.message), n)
  | .ping id => (some (.pong id), n)
  | .blockReply _ | .headReply _ | .compactBlockReply _ | .blockAccepted | .blockRejected _
  | .transactionAccepted | .transactionRejected _ | .pong _ => (none, n)

/-- Serves the frames of `stream`, at most `fuel` of them: the replies sent, how the connection
ended, and the node after. -/
def serveFrames (now : Int64) : Nat → Node → List UInt8 → List Message × Closing × Node
  | 0, n, _ => ([], .finished, n)
  | fuel + 1, n, stream =>
    match Message.receive .awaiting stream with
    | .error (.endOfStream _) => ([], .finished, n)
    | .error e => ([], .unreadable e, n)
    | .ok (m, rest) =>
      match n.respond now m with
      | (none, n') => ([], .finished, n')
      | (some reply, n') =>
        match reply.frame with
        | .error e => ([], .unsendable e, n')
        | .ok _ =>
          let (replies, closing, n'') := serveFrames now fuel n' rest
          (reply :: replies, closing, n'')

/-- Serves everything that arrived on a connection before the other side stopped sending.
Every frame takes at least its eight length bytes, so the stream holds fewer frames than
bytes. -/
def serve (n : Node) (now : Int64) (stream : List UInt8) : List Message × Closing × Node :=
  serveFrames now (stream.length + 1) n stream

end Node

end WorkLedger
