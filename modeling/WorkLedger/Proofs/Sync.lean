import WorkLedger.Node.Peers
import WorkLedger.Proofs.Accept
import WorkLedger.Proofs.Serving
import WorkLedger.Proofs.BlockIdentity

/-!
# Catching up with the peers

A node catches up with its peers one height at a time: it asks every peer for the block at its
own height, takes the block they agree on, and stops at the first height where they agree on
none or where it refuses the block they agree on.

* `Node.Takes` is a run of that loop, and `Node.Halts` the place where it ends; a tie among the
  peers' blocks at a height is broken by that height's draw, and the draws reach every tied
  block (`Node.exists_agreedBlock_iff`). Whatever the peers answer, the loop takes blocks only
  through the node's own acceptance, counts exactly the blocks it took, and ends where the node
  halts or where its fuel runs out (`Node.syncBlocks_takes`). The loop itself has no bound:
  `Node.Syncs` is where it ends, and any fuel past that round gives its end
  (`Node.sync_eq_iff_syncs`).
* Over `Network.direct`, a peer that is a node answers a request from its own chain, and the
  answer comes back as it reads from its frame (`Network.direct_of_fits`); an answer too long
  to send brings nothing back (`Network.direct_of_tooLarge`).
* When the peers' chains are prefixes of one another, they all agree on the block the
  longest of them holds at the node's height (`Node.agreedBlock_of_prefixes`). A node whose
  chain is a prefix of the longest one then takes the longest chain's missing blocks, as they
  read back, and ends level with it (`Node.sync_takes_agreed_blocks`), provided each
  missing block's reply fits the limit of a message; a block too long to send stops it
  (`heavy_block_stops_sync`).
-/

namespace WorkLedger

/-! ## Exchanges with nodes -/

namespace Message

/-- A request for a block by number carries no difficulty and no identifier. -/
theorem fits_fetchBlockByNumber (k : UInt64) : (fetchBlockByNumber k).Fits :=
  ⟨by simp [difficulties], by simp [identifiers]⟩

/-- A request for a block by number is short: its number has at most twenty digits. -/
theorem size_encode_fetchBlockByNumber (k : UInt64) :
    (fetchBlockByNumber k).encode.size ≤ maxMessageSize := by
  have hdigits : (toString k.toNat).utf8ByteSize ≤ 20 := by
    show (toString k.toNat).toUTF8.size ≤ 20
    rw [← ByteArray.length_toList, Json.toList_toUTF8_toString, List.length_map]
    exact Nat.toDigits_length 10 k.toNat 20 (by decide) (lt_trans k.toNat_lt (by decide))
  have hname : (Json.quote "FetchBlockByNumber").utf8ByteSize = 20 := by decide
  have hopen : "\x7b".utf8ByteSize = 1 := rfl
  have hcolon : ":".utf8ByteSize = 1 := rfl
  have hclose : "\x7d".utf8ByteSize = 1 := rfl
  show (Json.compactWith FloatText.render
    (.obj [("FetchBlockByNumber", .int (k.toNat : Int))])).utf8ByteSize ≤ maxMessageSize
  simp only [Json.compactWith, Json.compactMembers, Json.intText, String.utf8ByteSize_append,
    hname, hopen, hcolon, hclose, Int.natAbs_natCast,
    if_neg (Int.not_lt.2 (Int.natCast_nonneg k.toNat))]
  unfold maxMessageSize
  omega

/-- The reply that has no block is short. -/
theorem size_encode_blockReply_none : (blockReply none).encode.size ≤ maxMessageSize := by
  decide

/-- A reply with a head is no longer than the reply with the block of that head. -/
theorem size_encode_headReply_le (b : Block) :
    (headReply (some b.header)).encode.size ≤ (blockReply (some b)).encode.size := by
  have hhead : (Json.quote "HeadReply").utf8ByteSize = 11 := by decide
  have hblock : (Json.quote "BlockReply").utf8ByteSize = 12 := by decide
  show (Json.compactWith FloatText.render (.obj [("HeadReply", b.header.toJson)])).utf8ByteSize ≤
    (Json.compactWith FloatText.render (.obj [("BlockReply", .obj [("header", b.header.toJson),
      ("transactions", .arr (b.transactions.map Transaction.toJson))])])).utf8ByteSize
  simp only [Json.compactWith, Json.compactMembers, String.utf8ByteSize_append, hhead, hblock]
  omega

/-- A reply with a head fits its text when the reply with its block does. -/
theorem fits_headReply {b : Block} (h : (blockReply (some b)).Fits) :
    (headReply (some b.header)).Fits :=
  ⟨h.scales, by simp [identifiers]⟩

/-- A reply that fits the limit reads back from its frame as itself, with each difficulty as
its text reads. -/
theorem readBack_of_fits {r : Message} (hrfit : r.Fits)
    (hrsize : r.encode.size ≤ maxMessageSize) : r.readBack = some r.reread := by
  have hrecv := receive_frame .awaiting hrfit hrsize []
  rw [List.append_nil] at hrecv
  simp only [readBack, frame_eq_ok hrsize, Except.bind, hrecv]

/-- A reply too long to send does not come back. -/
theorem readBack_of_tooLarge {r : Message} (hrsize : maxMessageSize < r.encode.size) :
    r.readBack = none := by
  simp only [readBack, frame_eq_error hrsize, Except.bind]

end Message

namespace Network

/-- Each peer is asked in turn, and the reply of each exchange that succeeded stands in that
peer's place. -/
theorem exchangeAll_fst (net : Network) (m : Message) :
    ∀ ps : List Peer, (net.exchangeAll m ps).1 = ps.map fun p => (net p m).map Prod.fst
  | [] => rfl
  | p :: ps => by
    rw [exchangeAll, List.map_cons, ← exchangeAll_fst net m ps]
    cases net p m <;> rfl

section Direct

variable {now : Int64} {m m' : Node} {q r : Message}

/-- A request that fits the limit reaches the node, which answers it; the answer comes back as
it reads from the frame it is sent in. -/
theorem direct_of_respond (hq : q.isRequest = true) (hqfit : q.Fits)
    (hqsize : q.encode.size ≤ maxMessageSize) (hr : m.respond now q = (some r, m')) :
    direct now (.node m) q = r.readBack.map fun r' => (r', .node m') := by
  have hrecv := Message.receive_frame .awaiting hqfit hqsize []
  rw [List.append_nil, Message.reread_of_isRequest hq] at hrecv
  obtain ⟨reply, n', hresp, hserve⟩ := @Node.serve_of_request m now _ _ _ hrecv hq
  rw [hr, Prod.mk.injEq, Option.some.injEq] at hresp
  obtain ⟨rfl, rfl⟩ := hresp
  rw [direct, Message.frame_eq_ok hqsize]
  dsimp only
  rw [hserve]
  cases hf : r.frame with
  | error e =>
    -- a reply that cannot be sent leaves nothing to read
    have hnone : r.readBack = none := by simp only [Message.readBack, hf, Except.bind]
    rw [hnone]
    rfl
  | ok bytes =>
    rw [Node.serve_of_receive_error (Message.receive_nil .awaiting)]
    rfl

/-- **An answer that fits the limit comes back as it reads from its frame.** -/
theorem direct_of_fits (hq : q.isRequest = true) (hqfit : q.Fits)
    (hqsize : q.encode.size ≤ maxMessageSize) (hr : m.respond now q = (some r, m'))
    (hrfit : r.Fits) (hrsize : r.encode.size ≤ maxMessageSize) :
    direct now (.node m) q = some (r.reread, .node m') := by
  rw [direct_of_respond hq hqfit hqsize hr, Message.readBack_of_fits hrfit hrsize]
  rfl

/-- **An answer too long to send brings nothing back.** -/
theorem direct_of_tooLarge (hq : q.isRequest = true) (hqfit : q.Fits)
    (hqsize : q.encode.size ≤ maxMessageSize) (hr : m.respond now q = (some r, m'))
    (hrsize : maxMessageSize < r.encode.size) :
    direct now (.node m) q = none := by
  rw [direct_of_respond hq hqfit hqsize hr, Message.readBack_of_tooLarge hrsize]
  rfl

end Direct

end Network

/-! ## Agreeing on one block -/

/-- A block compares equal to itself. -/
theorem Block.beq_self (b : Block) : (b == b) = true := by
  obtain ⟨⟨⟨v, c, k, p, root, t, d, o, s⟩, hash⟩, txs⟩ := b
  show instBEqBlock.beq _ _ = true
  rw [instBEqBlock.beq.eq_1]
  show (instBEqHeader.beq _ _ && _) = true
  rw [instBEqHeader.beq.eq_1]
  show ((instBEqHeaderFields.beq _ _ && _) && _) = true
  rw [instBEqHeaderFields.beq.eq_1]
  simp

namespace Verdict

variable {α : Type} {v : Verdict α} {i : Nat} {a : α}

/-- A draw wins one of the values the outcome may settle on. -/
theorem mem_choices_of_draw (h : v.draw i = some a) : a ∈ v.choices :=
  List.mem_of_getElem? h

/-- **Every value the outcome may settle on is some draw's winner.** -/
theorem exists_draw_of_mem (h : a ∈ v.choices) : ∃ i, v.draw i = some a := by
  obtain ⟨i, hi, rfl⟩ := List.getElem_of_mem h
  exact ⟨i, by rw [draw, Nat.mod_eq_of_lt hi, List.getElem?_eq_getElem hi]⟩

/-- A unanimous outcome settles on its value whatever the draw. -/
@[simp] theorem draw_unanimous (a : α) (i : Nat) : (unanimous a).draw i = some a := by
  simp [draw, choices, Nat.mod_one]

end Verdict

namespace Consensus

variable {α : Type} [BEq α] [Linked α]

/-- Answers that are all one value, compared equal to itself, are unanimous for it. -/
theorem select_of_forall_eq (store : Store) {replies : List (Option α)} {a : α}
    (hself : (a == a) = true) (hmem : a ∈ replies.filterMap id)
    (hall : ∀ x ∈ replies.filterMap id, x = a) : select store replies = .unanimous a := by
  obtain ⟨first, rest, hfr⟩ := List.exists_cons_of_ne_nil (List.ne_nil_of_mem hmem)
  obtain rfl : first = a := hall first (hfr ▸ List.mem_cons_self)
  unfold select
  dsimp only
  rw [hfr]
  dsimp only
  rw [if_pos (List.all_eq_true.2 fun x hx => by rw [hall x (hfr ▸ hx)]; exact hself)]

/-- Without answers nothing is found. -/
theorem select_of_nil (store : Store) {replies : List (Option α)}
    (h : replies.filterMap id = []) : select store replies = .notFound := by
  unfold select
  dsimp only
  rw [h]

end Consensus

namespace Node

/-- **The draws reach exactly the blocks the peers' verdict at the node's height may settle
on**: every tied block is some draw's winner, and no draw wins anything else. -/
theorem exists_agreedBlock_iff {net : Network} {peers : List Peer} (n : Node) (b : Block) :
    (∃ i, n.agreedBlock net peers i = some b) ↔
      ∃ v, n.fetchBlock net peers n.chain.height.toUInt64 = .ok v ∧ b ∈ v.choices := by
  cases hf : n.fetchBlock net peers n.chain.height.toUInt64 with
  | error e =>
    simp only [agreedBlock, hf, reduceCtorEq, false_and, exists_false]
  | ok v =>
    simp only [agreedBlock, hf, Except.ok.injEq, exists_eq_left']
    constructor
    · rintro ⟨i, hi⟩
      exact Verdict.mem_choices_of_draw hi
    · exact Verdict.exists_draw_of_mem

/-! ## Peers that serve their chains -/

section Serving

variable {now : Int64} {ms : List Node}

/-- A node answers a request for block `k` with the block it holds there. -/
theorem respond_fetchBlockByNumber (m : Node) (now : Int64) (k : UInt64) :
    m.respond now (.fetchBlockByNumber k) = (some (.blockReply (m.chain.block? k.toNat)), m) :=
  rfl

/-- **Peers that are nodes each answer a request for block `k` with the block they hold there,
as it reads back**, when each such block's reply fits the limit; consensus then resolves
those answers. -/
theorem fetchBlock_direct (n : Node) (k : UInt64) (hne : ms ≠ [])
    (hfit : ∀ m ∈ ms, ∀ b, m.chain.block? k.toNat = some b →
      (Message.blockReply (some b)).Fits ∧
        (Message.blockReply (some b)).encode.size ≤ maxMessageSize) :
    n.fetchBlock (.direct now) (ms.map .node) k =
      .ok (Consensus.select n.chain
        (ms.map fun m => (m.chain.block? k.toNat).map Block.reread)) := by
  have hreply (m : Node) (hm : m ∈ ms) : Network.direct now (.node m) (.fetchBlockByNumber k) =
      some (.blockReply ((m.chain.block? k.toNat).map Block.reread), .node m) := by
    have hfits : (Message.blockReply (m.chain.block? k.toNat)).Fits ∧
        (Message.blockReply (m.chain.block? k.toNat)).encode.size ≤ maxMessageSize := by
      cases hb : m.chain.block? k.toNat with
      | none =>
        exact ⟨⟨by simp [Message.difficulties], by simp [Message.identifiers]⟩,
          Message.size_encode_blockReply_none⟩
      | some b => exact hfit m hm b hb
    exact Network.direct_of_fits rfl (Message.fits_fetchBlockByNumber k)
      (Message.size_encode_fetchBlockByNumber k) (respond_fetchBlockByNumber m now k) hfits.1
      hfits.2
  have hreplies : ((Network.direct now).exchangeAll (.fetchBlockByNumber k) (ms.map .node)).1 =
      ms.map fun m => some (Message.blockReply ((m.chain.block? k.toNat).map Block.reread)) := by
    rw [Network.exchangeAll_fst, List.map_map]
    exact List.map_congr_left fun m hm => by simp [hreply m hm]
  -- every exchange succeeded, so the query gives the peers' answers
  obtain ⟨m, hm⟩ := List.exists_mem_of_ne_nil ms hne
  have hany : (ms.map fun m => some (Message.blockReply
      ((m.chain.block? k.toNat).map Block.reread))).any Option.isSome = true :=
    List.any_eq_true.2 ⟨_, List.mem_map_of_mem hm, rfl⟩
  unfold fetchBlock fetch query
  rw [hreplies, if_pos hany, List.map_map]
  rfl

/-- A block that a chain holds is held at the same height by every chain that extends it. -/
theorem block?_of_extends {c c' : Store} (h : c.blocks <+: c'.blocks) {k : Nat} {b : Block}
    (hb : c.block? k = some b) : c'.block? k = some b := by
  obtain ⟨t, ht⟩ := h
  rw [Store.block?, ← ht, List.getElem?_append_left (List.getElem?_eq_some_iff.1 hb).1]
  exact hb

/-- **Peers whose chains are prefixes of the longest one agree on the block it holds at the
node's height, as that block reads back**, when its reply fits the limit; past the longest
chain they agree on none. -/
theorem agreedBlock_of_prefixes (n : Node) {longest : Node} (hL : longest ∈ ms)
    (hpre : ∀ m ∈ ms, m.chain.blocks <+: longest.chain.blocks) (hword : n.chain.height < 2 ^ 64)
    (hfit : ∀ b, longest.chain.block? n.chain.height = some b →
      (Message.blockReply (some b)).Fits ∧
        (Message.blockReply (some b)).encode.size ≤ maxMessageSize) (i : Nat) :
    n.agreedBlock (.direct now) (ms.map .node) i =
      (longest.chain.block? n.chain.height).map Block.reread := by
  have hk : n.chain.height.toUInt64.toNat = n.chain.height := by simp; omega
  have hfetch := @fetchBlock_direct now ms n n.chain.height.toUInt64 (List.ne_nil_of_mem hL)
    (fun m hm b hb => hfit b (block?_of_extends (hpre m hm) (hk ▸ hb)))
  rw [agreedBlock, hfetch, hk]
  dsimp only
  cases hb : longest.chain.block? n.chain.height with
  | none =>
    -- no peer holds a block there, so none is found
    rw [Consensus.select_of_nil _ (List.filterMap_eq_nil_iff.2 fun o ho => ?_)]
    · rfl
    obtain ⟨m, hm, rfl⟩ := List.mem_map.1 ho
    cases hmb : m.chain.block? n.chain.height with
    | none => rfl
    | some b => exact absurd (block?_of_extends (hpre m hm) hmb) (by rw [hb]; simp)
  | some b =>
    -- every peer that holds a block there holds this one, and the longest chain holds it
    have hall : ∀ x ∈ (ms.map fun m =>
        (m.chain.block? n.chain.height).map Block.reread).filterMap id, x = b.reread := by
      intro x hx
      obtain ⟨o, ho, hox⟩ := List.mem_filterMap.1 hx
      obtain ⟨m, hm, rfl⟩ := List.mem_map.1 ho
      obtain ⟨b', hb', rfl⟩ := Option.map_eq_some_iff.1 hox
      rw [block?_of_extends (hpre m hm) hb', Option.some.injEq] at hb
      rw [hb]
    have hmem : b.reread ∈
        (ms.map fun m => (m.chain.block? n.chain.height).map Block.reread).filterMap id :=
      List.mem_filterMap.2 ⟨_, List.mem_map_of_mem hL, by simp [hb]⟩
    rw [Consensus.select_of_forall_eq _ (Block.beq_self _) hmem hall, Verdict.draw_unanimous]
    rfl

end Serving

/-! ## Runs of the loop -/

section Runs

variable {net : Network} {peers : List Peer} {draws : Nat → Nat}

/-- The blocks a node takes from its peers one after another: each is the block the peers
agree on at the node's height, with that height's draw breaking a tie, and the node accepts it
without the clock. -/
inductive Takes (net : Network) (peers : List Peer) (draws : Nat → Nat) :
    Node → List Block → Node → Prop
  | nil (n : Node) : Takes net peers draws n [] n
  | cons {n n' n'' : Node} {b : Block} {bs : List Block} :
      n.agreedBlock net peers (draws n.chain.height) = some b → n.acceptBlock b false 0 = .ok n' →
      Takes net peers draws n' bs n'' → Takes net peers draws n (b :: bs) n''

/-- Where catching up stops: the peers agree on no block at the node's height, or the node
refuses the block they agree on. -/
def Halts (net : Network) (peers : List Peer) (draws : Nat → Nat) (n : Node) : Prop :=
  ∀ b, n.agreedBlock net peers (draws n.chain.height) = some b →
    ∃ r, n.acceptBlock b false 0 = .error r

/-- A block the node takes goes on top of its chain. -/
theorem blocks_of_acceptBlock {n n' : Node} {b : Block} {checkTime : Bool} {now : Int64}
    (h : n.acceptBlock b checkTime now = .ok n') : n'.chain.blocks = n.chain.blocks ++ [b] := by
  obtain ⟨head, hh, -, c, hc, rfl⟩ := acceptBlock_eq_ok_iff.1 h
  exact congrArg Store.blocks ((Store.append_eq_ok_iff hh b).1 hc).2.2

/-- The blocks a run takes are appended to the chain, in order. -/
theorem Takes.blocks {n n' : Node} {bs : List Block} (h : Takes net peers draws n bs n') :
    n'.chain.blocks = n.chain.blocks ++ bs := by
  induction h with
  | nil n => rw [List.append_nil]
  | cons _ hacc _ ih =>
    rw [ih, blocks_of_acceptBlock hacc, List.append_assoc, List.singleton_append]

/-- A run that takes no block leaves the node as it is. -/
theorem Takes.eq_of_nil {n n' : Node} (h : Takes net peers draws n [] n') : n' = n := by
  cases h
  rfl

/-- One round of the loop: without an agreed block, or with one the node refuses, it ends;
with one the node takes, it counts it and goes on from the node that took it. -/
theorem syncBlocks_succ (fuel : Nat) (n : Node) (added : Nat) :
    syncBlocks net peers draws (fuel + 1) n added =
      match n.agreedBlock net peers (draws n.chain.height) with
      | none => (added, n)
      | some b =>
        match n.acceptBlock b false 0 with
        | .error _ => (added, n)
        | .ok n' => syncBlocks net peers draws fuel n' (added + 1) := rfl

/-- **Every run of the loop takes agreed blocks through the node's own acceptance**: it
returns the count it started from plus the number of blocks it took, and it either used up
its fuel or ended where the node halts. -/
theorem syncBlocks_takes : ∀ (fuel : Nat) (n : Node) (added : Nat),
    ∃ bs n', syncBlocks net peers draws fuel n added = (added + bs.length, n') ∧
      Takes net peers draws n bs n' ∧ (bs.length = fuel ∨ Halts net peers draws n')
  | 0, n, added => ⟨[], n, rfl, .nil n, .inl rfl⟩
  | fuel + 1, n, added => by
    rw [syncBlocks_succ]
    cases hb : n.agreedBlock net peers (draws n.chain.height) with
    | none => exact ⟨[], n, rfl, .nil n, .inr fun b h => by rw [hb] at h; cases h⟩
    | some b =>
      dsimp only
      cases hacc : n.acceptBlock b false 0 with
      | error r =>
        refine ⟨[], n, rfl, .nil n, .inr fun b' h => ?_⟩
        rw [hb, Option.some.injEq] at h
        exact ⟨r, h ▸ hacc⟩
      | ok n' =>
        obtain ⟨bs, n'', hrun, htakes, hend⟩ := syncBlocks_takes fuel n' (added + 1)
        refine ⟨b :: bs, n'', ?_, .cons hb hacc htakes, ?_⟩
        · dsimp only
          rw [hrun, List.length_cons, Nat.add_comm bs.length, Nat.add_assoc]
        · rw [List.length_cons]
          exact hend.imp_left (congrArg (· + 1))

/-- **Fuel past the end of a run changes nothing**: a run that ends where the node halts is
what the loop does with any fuel for one more round than the blocks it takes. -/
theorem syncBlocks_of_takes {n n' : Node} {bs : List Block} (h : Takes net peers draws n bs n')
    (hhalt : Halts net peers draws n') :
    ∀ (fuel added : Nat), bs.length < fuel →
      syncBlocks net peers draws fuel n added = (added + bs.length, n') := by
  induction h with
  | nil n =>
    intro fuel added hfuel
    obtain ⟨fuel, rfl⟩ : ∃ k, fuel = k + 1 := ⟨fuel - 1, by simp at hfuel; omega⟩
    rw [syncBlocks_succ]
    cases hb : n.agreedBlock net peers (draws n.chain.height) with
    | none => rfl
    | some b =>
      obtain ⟨r, hr⟩ := hhalt b hb
      simp only [hr, List.length_nil, Nat.add_zero]
  | cons hb hacc _ ih =>
    intro fuel added hfuel
    obtain ⟨fuel, rfl⟩ : ∃ k, fuel = k + 1 := ⟨fuel - 1, by simp at hfuel; omega⟩
    rw [syncBlocks_succ, hb]
    dsimp only
    rw [hacc]
    dsimp only
    rw [ih hhalt fuel (added + 1) (by simp at hfuel; omega), List.length_cons]
    congr 1
    omega

end Runs

/-! ## The loop run to its end -/

section ToItsEnd

variable {net : Network} {peers : List Peer} {draws : Nat → Nat}

/-- What catching up does when its loop, which has no bound of its own, runs to its end: it
takes nothing without peers or when no peer tells its head, and otherwise counts the blocks of
a run that ends where the node halts. -/
inductive Syncs (net : Network) (peers : List Peer) (draws : Nat → Nat) :
    Node → Nat → Node → Prop
  | noPeers (n : Node) : peers = [] → Syncs net peers draws n 0 n
  | noHead {n : Node} {e : LedgerError} : n.fetchHead net peers = .error e →
      Syncs net peers draws n 0 n
  | run {n n' : Node} {v : Verdict Header} {bs : List Block} : peers ≠ [] →
      n.fetchHead net peers = .ok v → Takes net peers draws n bs n' → Halts net peers draws n' →
      Syncs net peers draws n bs.length n'

/-- Without peers nothing is taken. -/
theorem sync_nil (n : Node) (net : Network) (draws : Nat → Nat) (fuel : Nat) :
    n.sync net [] draws fuel = (0, n) := rfl

/-- When no peer tells its head nothing is taken. -/
theorem sync_of_fetchHead_error {n : Node} {e : LedgerError}
    (h : n.fetchHead net peers = .error e) (fuel : Nat) : n.sync net peers draws fuel = (0, n) := by
  unfold sync
  split
  · rfl
  · rw [h]

/-- When a peer tells its head, the loop runs from the node. -/
theorem sync_of_fetchHead_ok {n : Node} (hpeers : peers ≠ []) {v : Verdict Header}
    (h : n.fetchHead net peers = .ok v) (fuel : Nat) :
    n.sync net peers draws fuel = syncBlocks net peers draws fuel n 0 := by
  unfold sync
  rw [if_neg (by simpa using hpeers), h]

/-- **Once a peer tells its head, catching up is a run of the loop**: it returns the number of
blocks it took, appended in order, and ends where the node halts or where its fuel runs out. -/
theorem sync_takes {n : Node} (hpeers : peers ≠ []) {v : Verdict Header}
    (h : n.fetchHead net peers = .ok v) (fuel : Nat) :
    ∃ bs n', n.sync net peers draws fuel = (bs.length, n') ∧ Takes net peers draws n bs n' ∧
      n'.chain.blocks = n.chain.blocks ++ bs ∧ (Halts net peers draws n' ∨ bs.length = fuel) := by
  obtain ⟨bs, n', hrun, htakes, hend⟩ := @syncBlocks_takes net peers draws fuel n 0
  refine ⟨bs, n', ?_, htakes, htakes.blocks, hend.symm⟩
  rw [sync_of_fetchHead_ok hpeers h, hrun, Nat.zero_add]

/-- **Enough fuel runs the loop to its end**: with fuel for one more round than it counts,
catching up answers `(k, n')` exactly when its unbounded loop ends with `k` blocks taken at
`n'`. -/
theorem sync_eq_iff_syncs {n n' : Node} {k fuel : Nat} (hk : k < fuel) :
    n.sync net peers draws fuel = (k, n') ↔ Syncs net peers draws n k n' := by
  constructor
  · intro h
    by_cases hpeers : peers = []
    · subst hpeers
      rw [sync_nil, Prod.mk.injEq] at h
      obtain ⟨rfl, rfl⟩ := h
      exact .noPeers n rfl
    cases hf : n.fetchHead net peers with
    | error e =>
      rw [sync_of_fetchHead_error hf, Prod.mk.injEq] at h
      obtain ⟨rfl, rfl⟩ := h
      exact .noHead hf
    | ok v =>
      obtain ⟨bs, n'', hrun, htakes, -, hend⟩ := sync_takes hpeers hf fuel
      rw [hrun, Prod.mk.injEq] at h
      obtain ⟨rfl, rfl⟩ := h
      -- the run stopped before its fuel ran out, so it stopped where the node halts
      exact .run hpeers hf htakes (hend.resolve_right (Nat.ne_of_lt hk))
  · intro h
    cases h with
    | noPeers hpeers => subst hpeers; rfl
    | noHead hf => exact sync_of_fetchHead_error hf fuel
    | run hpeers hf htakes hhalt =>
      rw [sync_of_fetchHead_ok hpeers hf, syncBlocks_of_takes htakes hhalt fuel 0 hk,
        Nat.zero_add]

/-- A run that ends where the node halts is where the loop ends, provided a peer tells its head
whenever the run takes a block. -/
theorem syncs_of_takes {n n' : Node} {bs : List Block} (hpeers : peers ≠ [])
    (h : Takes net peers draws n bs n') (hhalt : Halts net peers draws n')
    (hhead : bs ≠ [] → ∃ v, n.fetchHead net peers = .ok v) :
    Syncs net peers draws n bs.length n' := by
  cases hf : n.fetchHead net peers with
  | error e =>
    obtain rfl : bs = [] := by
      by_contra hne
      obtain ⟨v, hv⟩ := hhead hne
      rw [hf] at hv
      cases hv
    rw [h.eq_of_nil]
    exact .noHead hf
  | ok v => exact .run hpeers hf h hhalt

end ToItsEnd

/-! ## Catching up -/

section CatchingUp

/-- A query is answered as soon as one exchange succeeds. -/
theorem fetch_isOk {α : Type} [BEq α] [Linked α] (n : Node) {net : Network}
    {peers : List Peer} {p : Peer} (hp : p ∈ peers) {q : Message} (hq : (net p q).isSome)
    (extract : Message → Option α) : ∃ v, n.fetch net peers q extract = .ok v := by
  have hany : (net.exchangeAll q peers).1.any Option.isSome = true := by
    rw [Network.exchangeAll_fst]
    exact List.any_eq_true.2 ⟨_, List.mem_map_of_mem hp, by simpa using hq⟩
  unfold fetch query
  rw [if_pos hany]
  exact ⟨_, rfl⟩

variable {now : Int64} {ms : List Node} {longest : Node} {draws : Nat → Nat}

/-- Chains that are prefixes of one another are prefixes of the longest of them. -/
theorem prefix_longest_of_comparable (hL : longest ∈ ms)
    (hpair : ∀ m₁ ∈ ms, ∀ m₂ ∈ ms,
      m₁.chain.blocks <+: m₂.chain.blocks ∨ m₂.chain.blocks <+: m₁.chain.blocks)
    (hmax : ∀ m ∈ ms, m.chain.height ≤ longest.chain.height) :
    ∀ m ∈ ms, m.chain.blocks <+: longest.chain.blocks := fun m hm =>
  -- the longest chain, as a prefix of one no longer, is that chain
  (hpair m hm longest hL).elim id fun h => (h.eq_of_length_le (hmax m hm)) ▸ List.prefix_refl _

/-- Level with the longest chain, the node halts: the peers agree on no block. -/
theorem halts_of_level (hL : longest ∈ ms)
    (hpre : ∀ m ∈ ms, m.chain.blocks <+: longest.chain.blocks)
    (hword : longest.chain.height < 2 ^ 64) {n : Node}
    (hlevel : n.chain.height = longest.chain.height) :
    Halts (.direct now) (ms.map .node) draws n := by
  have hnone : longest.chain.block? n.chain.height = none := by
    rw [hlevel, Store.block?]
    exact List.getElem?_eq_none (le_refl longest.chain.blocks.length)
  intro b hb
  rw [agreedBlock_of_prefixes n hL hpre (by omega)
    (fun b' hb' => by rw [hnone] at hb'; cases hb') _, hnone] at hb
  cases hb

/-- A peer whose head is a block with a reply that fits the limit tells its head. -/
theorem fetchHead_isOk (n : Node) {m : Node} (hm : m ∈ ms) {last : Block}
    (hhead : m.chain.head? = some last)
    (hfit : (Message.blockReply (some last)).Fits ∧
      (Message.blockReply (some last)).encode.size ≤ maxMessageSize) :
    ∃ v, n.fetchHead (.direct now) (ms.map .node) = .ok v := by
  have hresp : m.respond now .fetchHead = (some (.headReply (some last.header)), m) := by
    rw [respond, hhead]
    rfl
  have hreply := Network.direct_of_fits rfl
    ⟨by simp [Message.difficulties], by simp [Message.identifiers]⟩ (by decide) hresp
    (Message.fits_headReply hfit.1) ((Message.size_encode_headReply_le last).trans hfit.2)
  exact fetch_isOk n (List.mem_map_of_mem hm) (by rw [hreply]; rfl) _

/-- **Accepting the longest chain's missing blocks, as they read back, is a run of catching
up.** At each height the peers agree on the longest chain's block there, so the blocks the
node accepts one after another are the blocks catching up takes. -/
theorem takes_missing (hL : longest ∈ ms)
    (hpre : ∀ m ∈ ms, m.chain.blocks <+: longest.chain.blocks)
    (hword : longest.chain.height < 2 ^ 64) :
    ∀ (rest : List Block) (m final : Node), longest.chain.blocks.drop m.chain.height = rest →
      (∀ b ∈ rest, (Message.blockReply (some b)).Fits ∧
        (Message.blockReply (some b)).encode.size ≤ maxMessageSize) →
      (rest.map Block.reread).foldlM (fun m b => m.acceptBlock b false 0) m = .ok final →
      Takes (.direct now) (ms.map .node) draws m (rest.map Block.reread) final
  | [], m, final, _, _, hfold => by
    obtain rfl : m = final := Except.ok.inj hfold
    exact .nil m
  | b :: rest, m, final, hdrop, hfits, hfold => by
    rw [List.map_cons, List.foldlM_cons] at hfold
    cases hacc : m.acceptBlock b.reread false 0 with
    | error r =>
      rw [hacc] at hfold
      cases hfold
    | ok m₁ =>
      rw [hacc] at hfold
      have hblock : longest.chain.block? m.chain.height = some b := by
        rw [Store.block?, ← Nat.add_zero m.chain.height, ← List.getElem?_drop, hdrop]
        rfl
      have hlt : m.chain.height < longest.chain.height :=
        (List.getElem?_eq_some_iff.1 hblock).1
      have hagree : m.agreedBlock (.direct now) (ms.map .node) (draws m.chain.height) =
          some b.reread := by
        rw [agreedBlock_of_prefixes m hL hpre (by omega) (fun b' hb' => ?_), hblock]
        · rfl
        rw [hblock, Option.some.injEq] at hb'
        exact hb' ▸ hfits b List.mem_cons_self
      have hheight : m₁.chain.height = m.chain.height + 1 := by
        simp [Store.height, blocks_of_acceptBlock hacc]
      have hrest : longest.chain.blocks.drop m₁.chain.height = rest := by
        rw [hheight, ← List.drop_drop, hdrop]
        rfl
      exact .cons hagree hacc (takes_missing hL hpre hword rest m₁ final hrest
        (fun b' hb' => hfits b' (List.mem_cons_of_mem b hb')) hfold)

/-- **Catching up takes agreed blocks only through the node's acceptance, and takes the longest
chain's missing blocks from peers that serve their chains.**

Whatever the peers answer and whatever the draws that break ties: without peers, or when no
peer tells its head, nothing is taken; otherwise the node returns the number of blocks it took,
each a block the peers' verdict at the node's height may settle on and accepted by the node
without the clock, appended in order, and it ends where the peers agree on no block or the node
refuses the one they agree on, unless its fuel ran out first. With fuel for one more round than
it counts, its answer is where its unbounded loop ends; and the draws reach every block the
verdict may settle on.

When the peers are nodes that serve their own chains directly, and those chains are prefixes of
one another, a node whose chain is a prefix of the longest one takes exactly the blocks that
chain has and it lacks, as they read back from their frames, and ends with a chain of the same
text, whatever the draws and with any fuel past the number of missing blocks: provided the
chain is numbered within 64 bits, each missing block's reply fits its text and the limit of a
message, and the node accepts the missing blocks, as they read back, one after another. -/
theorem sync_takes_agreed_blocks (n : Node) :
    (∀ (net : Network) (peers : List Peer) (draws : Nat → Nat) (fuel : Nat),
      n.sync net [] draws fuel = (0, n) ∧
      (∀ e, n.fetchHead net peers = .error e → n.sync net peers draws fuel = (0, n)) ∧
      (peers ≠ [] → ∀ v, n.fetchHead net peers = .ok v →
        ∃ bs n', n.sync net peers draws fuel = (bs.length, n') ∧ Takes net peers draws n bs n' ∧
          n'.chain.blocks = n.chain.blocks ++ bs ∧ (Halts net peers draws n' ∨ bs.length = fuel)) ∧
      (∀ k n', k < fuel →
        (n.sync net peers draws fuel = (k, n') ↔ Syncs net peers draws n k n')) ∧
      ∀ b, (∃ i, n.agreedBlock net peers i = some b) ↔
        ∃ v, n.fetchBlock net peers n.chain.height.toUInt64 = .ok v ∧ b ∈ v.choices) ∧
    (∀ (now : Int64) (ms : List Node) (longest final : Node) (draws : Nat → Nat) (fuel : Nat),
      longest ∈ ms →
      (∀ m₁ ∈ ms, ∀ m₂ ∈ ms,
        m₁.chain.blocks <+: m₂.chain.blocks ∨ m₂.chain.blocks <+: m₁.chain.blocks) →
      (∀ m ∈ ms, m.chain.height ≤ longest.chain.height) →
      n.chain.blocks <+: longest.chain.blocks → longest.chain.height < 2 ^ 64 →
      (∀ b ∈ longest.chain.blocks.drop n.chain.height, (Message.blockReply (some b)).Fits ∧
        (Message.blockReply (some b)).encode.size ≤ maxMessageSize) →
      ((longest.chain.blocks.drop n.chain.height).map Block.reread).foldlM
        (fun m b => m.acceptBlock b false 0) n = .ok final →
      longest.chain.height - n.chain.height < fuel →
      n.sync (.direct now) (ms.map .node) draws fuel =
          (longest.chain.height - n.chain.height, final) ∧
        final.chain.blocks =
          n.chain.blocks ++ (longest.chain.blocks.drop n.chain.height).map Block.reread ∧
        final.chain.blocks.map Block.toJson = longest.chain.blocks.map Block.toJson) := by
  refine ⟨fun net peers draws fuel => ⟨sync_nil n net draws fuel,
    fun e h => sync_of_fetchHead_error h fuel, fun hpeers v h => sync_takes hpeers h fuel,
    fun k n' hk => sync_eq_iff_syncs hk, exists_agreedBlock_iff n⟩, ?_⟩
  intro now ms longest final draws fuel hL hpair hmax hlocal hword hfits hfold hfuel
  have hpre := prefix_longest_of_comparable hL hpair hmax
  set missing := longest.chain.blocks.drop n.chain.height with hmissing
  have hlong : longest.chain.blocks = n.chain.blocks ++ missing := by
    obtain ⟨t, ht⟩ := hlocal
    rw [hmissing, ← ht]
    show _ = _ ++ List.drop n.chain.blocks.length _
    rw [List.drop_left]
  have htakes :=
    @takes_missing now ms longest draws hL hpre hword missing n final rfl hfits hfold
  have hblocks := htakes.blocks
  have hlevel : final.chain.height = longest.chain.height := by
    simp only [Store.height, hblocks, hlong, List.length_append, List.length_map]
  have hcount : (missing.map Block.reread).length = longest.chain.height - n.chain.height := by
    rw [List.length_map, List.length_drop]
    rfl
  -- a block is missing only if the longest chain's head is one of the missing blocks
  have hhead : missing.map Block.reread ≠ [] →
      ∃ v, n.fetchHead (.direct now) (ms.map .node) = .ok v := by
    intro hne
    obtain ⟨last, hlast⟩ :=
      Option.isSome_iff_exists.1 (List.getLast?_isSome.2 (by simpa using hne : missing ≠ []))
    refine fetchHead_isOk n hL ?_ (hfits last (List.mem_of_getLast? hlast))
    rw [Store.head?, hlong, List.getLast?_append, hlast]
    rfl
  have hsyncs := syncs_of_takes (List.ne_nil_of_mem (List.mem_map_of_mem hL)) htakes
    (halts_of_level hL hpre hword hlevel) hhead
  rw [hcount] at hsyncs
  refine ⟨(sync_eq_iff_syncs hfuel).2 hsyncs, hblocks, ?_⟩
  rw [hblocks, hlong, List.map_append, List.map_append, List.map_map]
  congr 1
  exact List.map_congr_left fun b _ => Block.toJson_reread b

end CatchingUp

end Node

/-! ## A block too long to send -/

/-- A transaction whose text takes sixty-five bytes. -/
def smallTransaction : Transaction := ⟨1, "x", 0, 0, [1]⟩

/-- A hundred and seventy thousand small transactions. -/
def heavyTransactions : List Transaction := List.replicate 170000 smallTransaction

/-- The first block of the chains below: a header of defaults, with no transactions. -/
def rootBlock : Block :=
  ⟨⟨⟨1, "tessera-test", 0, Digest.zero, Digest.zero, 0, Decimal.one, 0, ""⟩, Digest.zero⟩, []⟩

/-- The fields of the block after `rootBlock` over the transactions `txs`, at difficulty one. -/
def fieldsAfterRoot (txs : List Transaction) : HeaderFields :=
  ⟨1, "tessera-test", 1, Digest.zero, Merkle.root txs, 0, Decimal.one, 0, ""⟩

/-- The sealed block after `rootBlock` over the transactions `txs`. -/
def blockAfterRoot (txs : List Transaction) : Block :=
  ⟨⟨fieldsAfterRoot txs, (fieldsAfterRoot txs).hash⟩, txs⟩

/-- The sealed block after `rootBlock` that carries the heavy transactions. -/
def heavyBlock : Block := blockAfterRoot heavyTransactions

/-- Without zero bits asked, a node holding `rootBlock` accepts the sealed block after it,
whatever its transactions and its pool, and prunes its pool by them. -/
theorem acceptBlock_blockAfterRoot (pool : Pool) (txs : List Transaction) :
    (⟨openParams, ⟨[rootBlock]⟩, pool⟩ : Node).acceptBlock (blockAfterRoot txs) false 0 =
      .ok ⟨openParams, ⟨[rootBlock, blockAfterRoot txs]⟩, pool.prune txs⟩ := by
  have hnext : Retarget.next openParams ⟨[rootBlock]⟩ rootBlock.header [rootBlock.header] =
      .ok Decimal.one := rfl
  have hmeets : Target.headerMeets openParams (blockAfterRoot txs).header = true := by
    show (fieldsAfterRoot txs).hash.meets (Target.ofDifficulty openParams Decimal.one) = true
    rw [Target.ofDifficulty_one rfl]
    exact Digest.meets_all_ones (Mining.length_hash _)
  have hcheck : Validator.check ⟨openParams, ⟨[rootBlock]⟩⟩ (blockAfterRoot txs)
      (some rootBlock.header) false 0 [rootBlock.header] = .ok () := by
    rw [Validator.check_eq_ok_iff]
    refine ⟨rfl, rfl, rfl, fun _ => ?_, hmeets, fun h => absurd h (by decide)⟩
    rw [Validator.checkLinkage_eq_ok_iff]
    exact ⟨_, rfl, rfl, rfl, _, hnext, Decimal.beq_self _⟩
  exact Node.acceptBlock_eq_ok_iff.2 ⟨rootBlock, rfl, hcheck, _, rfl, rfl⟩

/-- The reply carrying the heavy block is longer than a message may be. -/
theorem heavyBlock_reply_tooLarge :
    maxMessageSize < (Message.blockReply (some heavyBlock)).encode.size := by
  have hsmall : smallTransaction.toJson.compact.utf8ByteSize = 65 := by decide
  have h := Node.size_encode_blockReply heavyBlock
  simp only [heavyBlock, blockAfterRoot, heavyTransactions, List.map_replicate, hsmall,
    List.sum_replicate, smul_eq_mul] at h
  exact lt_of_lt_of_le (by decide) h

set_option maxRecDepth 8000 in
/-- A node holding only `rootBlock` tells its head, and has no block at height one. -/
theorem direct_rootBlock (now : Int64) :
    Network.direct now (.node (Node.make openParams ⟨[rootBlock]⟩)) .fetchHead =
      some (.headReply (some rootBlock.header.reread), .node (Node.make openParams ⟨[rootBlock]⟩)) ∧
    Network.direct now (.node (Node.make openParams ⟨[rootBlock]⟩)) (.fetchBlockByNumber 1) =
      some (.blockReply none, .node (Node.make openParams ⟨[rootBlock]⟩)) := by
  have hempty : (Message.blockReply none).Fits :=
    ⟨by simp [Message.difficulties], by simp [Message.identifiers]⟩
  refine ⟨Network.direct_of_fits (r := .headReply (some rootBlock.header)) rfl
    ⟨by simp [Message.difficulties], by simp [Message.identifiers]⟩ (by decide) rfl
    ⟨by decide, by simp [Message.identifiers]⟩ (by decide +kernel), ?_⟩
  exact Network.direct_of_fits (r := .blockReply none) rfl (Message.fits_fetchBlockByNumber 1)
    (Message.size_encode_fetchBlockByNumber 1) rfl hempty Message.size_encode_blockReply_none

/-- The node holding the heavy block sends nothing back when asked for it. -/
theorem direct_heavyBlock (now : Int64) :
    Network.direct now (.node (Node.make openParams ⟨[rootBlock, heavyBlock]⟩))
      (.fetchBlockByNumber 1) = none :=
  Network.direct_of_tooLarge (r := .blockReply (some heavyBlock)) rfl
    (Message.fits_fetchBlockByNumber 1) (Message.size_encode_fetchBlockByNumber 1) rfl
    heavyBlock_reply_tooLarge

/-- **A node that accepts the one block it lacks does not take it when its reply is too long to
send**, whatever the draws and the fuel: the peer holding it sends nothing back, the other peer
has no block at that height, and the node ends where it started. -/
theorem heavy_block_stops_sync :
    (∃ n', (Node.make openParams ⟨[rootBlock]⟩).acceptBlock heavyBlock false 0 = .ok n') ∧
      maxMessageSize < (Message.blockReply (some heavyBlock)).encode.size ∧
      ∀ (draws : Nat → Nat) (fuel : Nat),
        (Node.make openParams ⟨[rootBlock]⟩).sync (.direct 0)
            [.node (Node.make openParams ⟨[rootBlock, heavyBlock]⟩),
              .node (Node.make openParams ⟨[rootBlock]⟩)] draws fuel =
          (0, Node.make openParams ⟨[rootBlock]⟩) := by
  refine ⟨⟨_, acceptBlock_blockAfterRoot Pool.empty heavyTransactions⟩, heavyBlock_reply_tooLarge,
    fun draws fuel => ?_⟩
  have hsome : (Network.direct 0 (.node (Node.make openParams ⟨[rootBlock]⟩)) .fetchHead).isSome :=
    by rw [(direct_rootBlock 0).1]; rfl
  have hhead : ∃ v, (Node.make openParams ⟨[rootBlock]⟩).fetchHead (.direct 0)
      [.node (Node.make openParams ⟨[rootBlock, heavyBlock]⟩),
        .node (Node.make openParams ⟨[rootBlock]⟩)] = .ok v :=
    Node.fetch_isOk _ (List.mem_cons_of_mem _ List.mem_cons_self) hsome _
  obtain ⟨v, hv⟩ := hhead
  rw [Node.sync_of_fetchHead_ok (List.cons_ne_nil _ _) hv]
  -- at height one the heavy block's holder sends nothing and the other peer has no block
  have hnone (i : Nat) : (Node.make openParams ⟨[rootBlock]⟩).agreedBlock (.direct 0)
      [.node (Node.make openParams ⟨[rootBlock, heavyBlock]⟩),
        .node (Node.make openParams ⟨[rootBlock]⟩)] i = none := by
    unfold Node.agreedBlock Node.fetchBlock Node.fetch Node.query
    rw [Network.exchangeAll_fst, List.map_cons, List.map_cons, List.map_nil]
    rw [show (Node.make openParams ⟨[rootBlock]⟩).chain.height.toUInt64 = 1 from rfl,
      direct_heavyBlock, (direct_rootBlock 0).2]
    rfl
  cases fuel with
  | zero => rfl
  | succ fuel => rw [Node.syncBlocks_succ, hnone]

end WorkLedger
