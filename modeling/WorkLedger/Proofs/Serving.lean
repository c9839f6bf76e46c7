import WorkLedger.Node.Service
import WorkLedger.Proofs.Framing

/-!
# Serving a connection, frame by frame

A node serves a connection by reading one frame at a time from what arrived and answering it
before it reads the next. The lemmas here are about `Node.serve` on a stream as a whole,
whatever the number of frames in it:

* a request read from the front of the stream is answered by the node as the requests before it
  left it, and serving goes on with the rest of the stream; a reply too long to send ends the
  connection with an error instead, and nothing after it is read (`Node.serve_of_request`);
* a stream that ends, even inside a frame, a frame that announces a body over the limit, a body
  that is no message, and a message that is itself a reply each end the connection at once,
  whatever follows (`Node.serve_of_receive_error`, `Node.serve_of_reply`);
* frames of requests written one after another are answered in order, each by the node the
  ones before left (`Node.serve_frames_append`, with `Node.answerRequests`).

`Node.serve_answers_each_request` gathers them. Requests for blocks, heads and proofs, and
pings, leave the node as it is.
-/

namespace WorkLedger

namespace Message

/-- The messages a node answers, offered blocks apart: requests for blocks, heads and membership
proofs, offered transactions and pings. -/
def isRequest : Message → Bool
  | .fetchBlockByNumber _ | .fetchBlockByHash _ | .fetchHead | .fetchCompactBlock _ _
  | .newTransaction _ | .ping _ => true
  | _ => false

/-- The messages that are themselves replies. -/
def isReply : Message → Bool
  | .blockReply _ | .headReply _ | .compactBlockReply _ | .blockAccepted | .blockRejected _
  | .transactionAccepted | .transactionRejected _ | .pong _ => true
  | _ => false

/-- A request carries no difficulty, so it reads back as itself. -/
theorem reread_of_isRequest {m : Message} (h : m.isRequest = true) : m.reread = m := by
  cases m <;> simp_all [isRequest, reread]

/-- A frame read from a stream takes at least its eight length bytes. -/
theorem length_rest_of_receive {mode : ReadMode} {stream rest : List UInt8} {m : Message}
    (h : receive mode stream = .ok (m, rest)) : rest.length + 8 ≤ stream.length := by
  unfold receive at h
  dsimp only at h
  split at h
  · cases h
  · split at h
    · cases h
    · split at h
      · cases h
      · split at h
        · cases h
          simp only [List.length_drop]
          omega
        · cases h

theorem receive_of_short {mode : ReadMode} {stream : List UInt8} (h : stream.length < 8) :
    receive mode stream = .error (.endOfStream mode) := by
  rw [receive, if_pos h]

/-- A stream that ends inside the body its length announces. -/
theorem receive_truncated (mode : ReadMode) {header body : List UInt8} (h8 : header.length = 8)
    (hle : lengthOf header ≤ maxMessageSize) (hshort : body.length < lengthOf header) :
    receive mode (header ++ body) = .error (.endOfStream mode) := by
  have htake : (header ++ body).take 8 = header := by
    rw [List.take_append_of_le_length (by omega), List.take_of_length_le (by omega)]
  have hdrop : (header ++ body).drop 8 = body := by
    rw [← h8, List.drop_left]
  rw [receive, if_neg (by simp; omega), htake, hdrop, if_neg (by omega), if_pos hshort]

/-- A body that is no message. -/
theorem receive_undecodable (mode : ReadMode) {header body : List UInt8} (h8 : header.length = 8)
    (hlen : lengthOf header = body.length) (hle : body.length ≤ maxMessageSize)
    {e : Json.ReadError} (hdec : decode ⟨body.toArray⟩ = .error e) (rest : List UInt8) :
    receive mode (header ++ body ++ rest) = .error (.undecodable e) := by
  have htake : (header ++ body ++ rest).take 8 = header := by
    rw [List.append_assoc, List.take_append_of_le_length (by omega),
      List.take_of_length_le (by omega)]
  have hdrop : (header ++ body ++ rest).drop 8 = body ++ rest := by
    rw [List.append_assoc, ← h8, List.drop_left]
  rw [receive, if_neg (by simp; omega), htake, hdrop, hlen, if_neg (by omega),
    if_neg (by simp), List.take_left, hdec]

end Message

/-- How a connection ends when no frame can be read from what is left: normally where the
stream ends, with an error where a frame is too large or holds no message. -/
def Closing.ofUnreadable : FrameError → Closing
  | .endOfStream _ => .finished
  | e => .unreadable e

namespace Node

theorem respond_of_isReply {m : Message} (h : m.isReply = true) (n : Node) (now : Int64) :
    n.respond now m = (none, n) := by
  cases m <;> simp_all [Message.isReply, respond]

/-- A request is answered. -/
theorem respond_of_isRequest {m : Message} (h : m.isRequest = true) (n : Node) (now : Int64) :
    ∃ reply, (n.respond now m).1 = some reply := by
  cases m <;> simp_all [Message.isRequest, respond]
  split <;> simp

/-- Requests for blocks, heads and proofs, and pings, leave the node as it is. -/
theorem respond_keeps_node {m : Message} (h : m.isRequest = true)
    (ht : ∀ t, m ≠ .newTransaction t) (n : Node) (now : Int64) : (n.respond now m).2 = n := by
  cases m <;> simp_all [Message.isRequest, respond]

/-- Fuel beyond the stream's length changes nothing: every frame takes at least eight bytes. -/
theorem serveFrames_fuel (now : Int64) :
    ∀ (fuel₁ fuel₂ : Nat) (n : Node) (stream : List UInt8), stream.length < fuel₁ →
      stream.length < fuel₂ → serveFrames now fuel₁ n stream = serveFrames now fuel₂ n stream
  | 0, _, _, _, h₁, _ => absurd h₁ (Nat.not_lt_zero _)
  | _, 0, _, _, _, h₂ => absurd h₂ (Nat.not_lt_zero _)
  | k₁ + 1, k₂ + 1, n, stream, h₁, h₂ => by
    simp only [serveFrames]
    rcases hr : Message.receive .awaiting stream with e | ⟨m, rest⟩
    · cases e <;> rfl
    · have hlen := Message.length_rest_of_receive hr
      simp only
      rcases n.respond now m with ⟨_ | reply, n'⟩
      · rfl
      · simp only
        cases reply.frame with
        | error e => rfl
        | ok _ => rw [serveFrames_fuel now k₁ k₂ n' rest (by omega) (by omega)]

/-- **One frame at a time.** A message read from the front of the stream is answered by the
node as it is, and serving goes on with the rest of the stream. -/
theorem serve_of_receive_ok {n : Node} {now : Int64} {stream rest : List UInt8} {m : Message}
    (h : Message.receive .awaiting stream = .ok (m, rest)) :
    n.serve now stream =
      match n.respond now m with
      | (none, n') => ([], .finished, n')
      | (some reply, n') =>
        match reply.frame with
        | .error e => ([], .unsendable e, n')
        | .ok _ =>
          let (replies, closing, n'') := n'.serve now rest
          (reply :: replies, closing, n'') := by
  have hlen := Message.length_rest_of_receive h
  rw [serve, serveFrames, h]
  dsimp only
  rcases n.respond now m with ⟨_ | reply, n'⟩
  · rfl
  · dsimp only
    cases reply.frame with
    | error e => rfl
    | ok _ =>
      dsimp only
      rw [serve, serveFrames_fuel now stream.length (rest.length + 1) n' rest (by omega) (by omega)]

/-- A stream with no frame to read at its front ends the connection at once. -/
theorem serve_of_receive_error {n : Node} {now : Int64} {stream : List UInt8} {e : FrameError}
    (h : Message.receive .awaiting stream = .error e) :
    n.serve now stream = ([], Closing.ofUnreadable e, n) := by
  rw [serve, serveFrames, h]
  cases e <;> rfl

/-- A request at the front is answered by the node as it is; its reply is sent if it fits the
limit, and serving goes on with the rest; otherwise the connection ends with an error. -/
theorem serve_of_request {n : Node} {now : Int64} {stream rest : List UInt8} {m : Message}
    (h : Message.receive .awaiting stream = .ok (m, rest)) (hm : m.isRequest = true) :
    ∃ reply n', n.respond now m = (some reply, n') ∧
      n.serve now stream =
        match reply.frame with
        | .error e => ([], .unsendable e, n')
        | .ok _ =>
          let (replies, closing, n'') := n'.serve now rest
          (reply :: replies, closing, n'') := by
  obtain ⟨reply, hreply⟩ := respond_of_isRequest hm n now
  refine ⟨reply, (n.respond now m).2, Prod.ext hreply rfl, ?_⟩
  rw [serve_of_receive_ok h]
  rcases hr : n.respond now m with ⟨_ | r, n'⟩ <;> rw [hr] at hreply <;> cases hreply
  rfl

/-- A reply at the front ends the connection without an answer, whatever follows. -/
theorem serve_of_reply {n : Node} {now : Int64} {stream rest : List UInt8} {m : Message}
    (h : Message.receive .awaiting stream = .ok (m, rest)) (hm : m.isReply = true) :
    n.serve now stream = ([], .finished, n) := by
  rw [serve_of_receive_ok h, respond_of_isReply hm]

/-- Requests answered one after another, each by the node the ones before left: the replies in
order, the error of the first reply too long to send, after which nothing is answered, and the
node after. -/
def answerRequests (now : Int64) : Node → List Message → List Message × Option FrameError × Node
  | n, [] => ([], none, n)
  | n, m :: ms =>
    match n.respond now m with
    | (none, n') => ([], none, n')
    | (some reply, n') =>
      match reply.frame with
      | .error e => ([], some e, n')
      | .ok _ =>
        let (replies, e, n'') := answerRequests now n' ms
        (reply :: replies, e, n'')

/-- **Frames of requests, one after another, are answered in order**, and serving goes on with
what follows them, unless a reply was too long to send. -/
theorem serve_frames_append (now : Int64) :
    ∀ (n : Node) (ms : List Message) (tail : List UInt8),
      (∀ m ∈ ms, m.isRequest = true ∧ m.Fits ∧ m.encode.size ≤ maxMessageSize) →
      n.serve now ((ms.map fun m => lengthBytes m.encode.size ++ m.encode.toList).flatten ++
          tail) =
        match n.answerRequests now ms with
        | (replies, some e, n') => (replies, .unsendable e, n')
        | (replies, none, n') =>
          let (replies', closing, n'') := n'.serve now tail
          (replies ++ replies', closing, n'')
  | n, [], tail, _ => by
    simp only [List.map_nil, List.flatten_nil, List.nil_append, answerRequests]
  | n, m :: ms, tail, hms => by
    obtain ⟨hreq, hfit, hsize⟩ := hms m List.mem_cons_self
    have hrest := fun m' hm' => hms m' (List.mem_cons_of_mem m hm')
    have hrecv := Message.receive_frame .awaiting hfit hsize
      ((ms.map fun m => lengthBytes m.encode.size ++ m.encode.toList).flatten ++ tail)
    rw [Message.reread_of_isRequest hreq] at hrecv
    simp only [List.map_cons, List.flatten_cons, List.append_assoc]
    obtain ⟨reply, n', hresp, hserve⟩ := @serve_of_request n now _ _ _ hrecv hreq
    rw [← List.append_assoc, hserve, answerRequests, hresp]
    dsimp only
    cases reply.frame with
    | error e => rfl
    | ok _ =>
      simp only
      rw [serve_frames_append now n' ms tail hrest]
      rcases answerRequests now n' ms with ⟨replies, _ | e, n''⟩ <;> rfl

/-- **A node answers each request of a connection in order, from its state at that request.**
A request read from the front of the stream is answered by the node as it is, and its reply is
sent before anything else is read, if the reply fits the limit; a reply too long to send ends
the connection with an error instead. A stream that ends, even inside the length or the body of
a frame, and a reply where a request was due end the connection normally with no answer; a
length above the limit and a body that is no message end it with an error; nothing after any of
these is read. Frames of requests written one after another are answered in order, and serving
goes on with what follows them. Requests other than offered transactions leave the node as it
is, and a reply is refused exactly when its body is longer than the limit. -/
theorem serve_answers_each_request (n : Node) (now : Int64) :
    (∀ (stream rest : List UInt8) (m : Message),
      Message.receive .awaiting stream = .ok (m, rest) → m.isRequest = true →
      ∃ reply n', n.respond now m = (some reply, n') ∧
        n.serve now stream =
          match reply.frame with
          | .error e => ([], .unsendable e, n')
          | .ok _ =>
            let (replies, closing, n'') := n'.serve now rest
            (reply :: replies, closing, n'')) ∧
    (∀ (stream rest : List UInt8) (m : Message),
      Message.receive .awaiting stream = .ok (m, rest) → m.isReply = true →
      n.serve now stream = ([], .finished, n)) ∧
    (∀ stream : List UInt8, stream.length < 8 → n.serve now stream = ([], .finished, n)) ∧
    (∀ header body : List UInt8, header.length = 8 → lengthOf header ≤ maxMessageSize →
      body.length < lengthOf header → n.serve now (header ++ body) = ([], .finished, n)) ∧
    (∀ header rest : List UInt8, header.length = 8 → maxMessageSize < lengthOf header →
      n.serve now (header ++ rest) = ([], .unreadable (.tooLarge (lengthOf header)), n)) ∧
    (∀ (header body rest : List UInt8) (e : Json.ReadError), header.length = 8 →
      lengthOf header = body.length → body.length ≤ maxMessageSize →
      Message.decode ⟨body.toArray⟩ = .error e →
      n.serve now (header ++ body ++ rest) = ([], .unreadable (.undecodable e), n)) ∧
    (∀ (ms : List Message) (tail : List UInt8),
      (∀ m ∈ ms, m.isRequest = true ∧ m.Fits ∧ m.encode.size ≤ maxMessageSize) →
      n.serve now ((ms.map fun m => lengthBytes m.encode.size ++ m.encode.toList).flatten ++
          tail) =
        match n.answerRequests now ms with
        | (replies, some e, n') => (replies, .unsendable e, n')
        | (replies, none, n') =>
          let (replies', closing, n'') := n'.serve now tail
          (replies ++ replies', closing, n'')) ∧
    (∀ m : Message, m.isRequest = true → (∀ t, m ≠ .newTransaction t) →
      (n.respond now m).2 = n) ∧
    (∀ reply : Message, (∃ e, reply.frame = .error e) ↔ maxMessageSize < reply.encode.size) := by
  refine ⟨fun _ _ _ h hm => serve_of_request h hm, fun _ _ _ h hm => serve_of_reply h hm,
    fun _ h => serve_of_receive_error (Message.receive_of_short h), ?_, ?_, ?_,
    serve_frames_append now n, fun _ hm ht => respond_keeps_node hm ht n now,
    Message.frame_eq_error_iff⟩
  · intro header body h8 hle hshort
    exact serve_of_receive_error (Message.receive_truncated .awaiting h8 hle hshort)
  · intro header rest h8 hbig
    exact serve_of_receive_error (Message.receive_tooLarge .awaiting h8 hbig rest)
  · intro header body rest e h8 hlen hle hdec
    exact serve_of_receive_error (Message.receive_undecodable .awaiting h8 hlen hle hdec rest)

/-! ## Replies too long to send -/

/-- Compact elements are at least as long as their texts together. -/
theorem size_compactItems (float : Float → String) :
    ∀ items : List Json, (items.map fun x => (Json.compactWith float x).utf8ByteSize).sum ≤
      (Json.compactItems float items).utf8ByteSize
  | [] => by simp
  | [x] => by simp [Json.compactItems]
  | x :: y :: rest => by
    have ih := size_compactItems float (y :: rest)
    have hcons : Json.compactItems float (x :: y :: rest) =
        Json.compactWith float x ++ "," ++ Json.compactItems float (y :: rest) := rfl
    rw [hcons, String.utf8ByteSize_append, String.utf8ByteSize_append]
    simp only [List.map_cons, List.sum_cons] at ih ⊢
    omega

/-- The body of a reply carrying a block is at least as long as its transactions' texts
together. -/
theorem size_encode_blockReply (b : Block) :
    (b.transactions.map fun t => t.toJson.compact.utf8ByteSize).sum ≤
      (Message.blockReply (some b)).encode.size := by
  have hitems := size_compactItems FloatText.render (b.transactions.map Transaction.toJson)
  rw [List.map_map] at hitems
  show _ ≤ (Json.compactWith FloatText.render (.obj [("BlockReply", .obj [("header",
    b.header.toJson), ("transactions", .arr (b.transactions.map Transaction.toJson))])])).utf8ByteSize
  simp only [Json.compactWith, Json.compactMembers, String.utf8ByteSize_append]
  exact hitems.trans (by omega)

end Node

/-- A block of seventy-three thousand placeholder transactions under a header of defaults. -/
def bulkyBlock : Block :=
  ⟨⟨⟨1, "tessera-test", 0, Digest.zero, Digest.zero, 0, Decimal.one, 0, ""⟩, Digest.zero⟩,
    List.replicate 73000 Transaction.placeholder⟩

/-- The frame of a request for block zero. -/
def firstBlockRequest : List UInt8 :=
  lengthBytes (Message.fetchBlockByNumber 0).encode.size ++
    (Message.fetchBlockByNumber 0).encode.toList

set_option maxRecDepth 8000 in
/-- A node holding the bulky block is asked for it: the reply is longer than a message may be,
so it is not sent and the connection ends with the error of the refused frame. -/
theorem bulky_block_reply_is_not_sent :
    maxMessageSize < (Message.blockReply (some bulkyBlock)).encode.size ∧
      (Node.make ChainParams.testing ⟨[bulkyBlock]⟩).serve 0 firstBlockRequest =
        ([], .unsendable (.refused (Message.blockReply (some bulkyBlock)).encode.size),
          Node.make ChainParams.testing ⟨[bulkyBlock]⟩) := by
  have hplaceholder : Transaction.placeholder.toJson.compact.utf8ByteSize = 145 := by
    decide
  have hbig : maxMessageSize < (Message.blockReply (some bulkyBlock)).encode.size := by
    have h := Node.size_encode_blockReply bulkyBlock
    simp only [bulkyBlock, List.map_replicate, hplaceholder, List.sum_replicate,
      smul_eq_mul] at h
    exact lt_of_lt_of_le (by decide) h
  refine ⟨hbig, ?_⟩
  have hrecv := Message.receive_frame .awaiting (m := .fetchBlockByNumber 0)
    ⟨by simp [Message.difficulties], by simp [Message.identifiers]⟩ (by decide) []
  rw [List.append_nil, Message.reread_of_isRequest rfl] at hrecv
  obtain ⟨reply, n', hresp, hserve⟩ :=
    @Node.serve_of_request (Node.make ChainParams.testing ⟨[bulkyBlock]⟩) 0 _ _ _ hrecv rfl
  -- the node answers with the block it holds, and stays as it is
  have hanswer : Node.respond (Node.make ChainParams.testing ⟨[bulkyBlock]⟩) 0
      (.fetchBlockByNumber 0) = (some (.blockReply (some bulkyBlock)),
        Node.make ChainParams.testing ⟨[bulkyBlock]⟩) := rfl
  rw [hanswer, Prod.mk.injEq, Option.some.injEq] at hresp
  obtain ⟨rfl, rfl⟩ := hresp
  rw [firstBlockRequest, hserve, Message.frame_eq_error hbig]

end WorkLedger
