import WorkLedger.Proofs.Mining
import WorkLedger.Node.Basic

/-!
# A node's chain stays valid

A node checks an offered block against its head with the last `retargetInterval + 1` headers as
the window, and the chain then appends it. The window stands in for the chain: in a chain whose
blocks are numbered from zero, a header found in the window by number is the chain's header of
that number, so the retarget lookback reads the same header through the window as through the
chain (`Store.lookup_recentHeaders`), however far back it reaches. Appending a block leaves
every lookback of the blocks already there unchanged (`Retarget.next_append`). Hence the
validator's verdict on the new block against the head is its verdict inside the longer chain,
and the verdicts on the old blocks stay as they were (`Store.Valid.append`).

The check against the head decides the link to it, except for a block numbered zero, which
skips the linkage rules; such a block is refused by the chain's numbering. So a node takes a
block exactly when the block passes the check and carries the chain's height as its number.

* `Node.offer`, `Node.offerAll`: the node after one offered block, and after a sequence of
  them, where a refused block leaves the node as it was.
* `Node.acceptBlock_extends_valid_chain`: the node takes a block exactly under those two
  conditions, taking it appends it to the chain, and a valid chain stays valid after every
  sequence of offers.
-/

namespace WorkLedger

/-! ## The window stands in for the chain -/

namespace Retarget

/-- A window whose every header is the chain's header of its number gives the lookups of the
chain alone. -/
theorem lookup_of_window {s : Store} {w : List Header} (n : UInt64)
    (hw : ∀ h ∈ w, s.header? h.blockNumber.toNat = some h) :
    lookup s w n = lookup s [] n := by
  rw [lookup, lookup_nil]
  cases hf : w.find? (·.blockNumber == n) with
  | none => rfl
  | some h =>
    have hn : h.blockNumber = n := by simpa using List.find?_some hf
    rw [← hn, hw h (List.mem_of_find?_eq_some hf)]

end Retarget

namespace Store

/-- The blocks of `c` are numbered from zero. -/
def Numbered (c : Store) : Prop :=
  ∀ i (h : i < c.blocks.length), c.blocks[i].blockNumber.toNat = i

/-- In a chain numbered from zero, a stored block is the block of its number. -/
theorem block?_of_mem {c : Store} (hnum : c.Numbered) {b : Block} (hb : b ∈ c.blocks) :
    c.block? b.blockNumber.toNat = some b := by
  obtain ⟨i, hi, rfl⟩ := List.mem_iff_getElem.1 hb
  rw [hnum i hi]
  exact List.getElem?_eq_getElem hi

theorem header?_of_mem {c : Store} (hnum : c.Numbered) {b : Block} (hb : b ∈ c.blocks) :
    c.header? b.blockNumber.toNat = some b.header := by
  rw [header?, block?_of_mem hnum hb]
  rfl

/-- A block numbered by the height keeps a chain numbered from zero. -/
theorem Numbered.append {c : Store} (hnum : c.Numbered) {b : Block}
    (hb : b.blockNumber.toNat = c.height) : (⟨c.blocks ++ [b]⟩ : Store).Numbered := by
  intro i hi
  simp only [List.length_append, List.length_singleton] at hi
  rcases Nat.lt_or_eq_of_le (Nat.le_of_lt_succ hi) with h | h
  · rw [List.getElem_append_left h]
    exact hnum i h
  · rw [List.getElem_concat_length h]
    exact hb.trans h.symm

/-- In a chain numbered from zero, the window of recent headers gives the lookups of the
chain. -/
theorem lookup_recentHeaders {c : Store} (hnum : c.Numbered) (count : Nat) (n : UInt64) :
    Retarget.lookup c (c.recentHeaders count) n = Retarget.lookup c [] n := by
  refine Retarget.lookup_of_window n fun h hh => ?_
  obtain ⟨b, hb, rfl⟩ := List.mem_map.1 hh
  exact header?_of_mem hnum (List.mem_of_mem_drop hb)

theorem next_recentHeaders {p : ChainParams} {c : Store} (hnum : c.Numbered) (count : Nat)
    (h : Header) :
    Retarget.next p c h (c.recentHeaders count) = Retarget.next p c h [] :=
  Retarget.next_congr (lookup_recentHeaders hnum count _)

end Store

/-- Retargeting after a header of the chain looks back no further than that header, so a block
appended after it changes nothing. -/
theorem Retarget.next_append {p : ChainParams} {c : Store} (b : Block) {h : Header}
    (hh : h.blockNumber.toNat < c.height) :
    next p ⟨c.blocks ++ [b]⟩ h [] = next p c h [] := by
  refine next_congr ?_
  have hk := UInt64.toNat_sub_min h.blockNumber p.retargetInterval
  rw [lookup_nil, lookup_nil, Store.header?_append_of_lt c b (by omega)]

/-! ## Appending to a valid chain -/

namespace Validator

/-- A block that passes the clock rule passes without it. -/
theorem check_without_clock {v : Validator} {b : Block} {previous : Option Header}
    {checkTime : Bool} {now : Int64} {window : List Header}
    (h : v.check b previous checkTime now window = .ok ()) :
    v.check b previous false now window = .ok () := by
  rw [check_eq_ok_iff] at h ⊢
  obtain ⟨hm, hn, hh, hl, hw, -⟩ := h
  exact ⟨hm, hn, hh, hl, hw, by simp⟩

/-- A block after the first that passes the check against `prev` names its hash. -/
theorem previousHash_of_check {v : Validator} {b : Block} {prev : Header} {checkTime : Bool}
    {now : Int64} {window : List Header}
    (h : v.check b (some prev) checkTime now window = .ok ()) (hpos : 0 < b.header.blockNumber) :
    b.header.previousHash = prev.hash := by
  obtain ⟨-, -, -, hl, -⟩ := (check_eq_ok_iff _ _ _ _ _ _).1 h
  obtain ⟨_, hp, -, hprev, -⟩ := (checkLinkage_eq_ok_iff _ _ _ _).1 (hl hpos)
  cases hp
  exact hprev

end Validator

namespace Store

theorem height_pos_of_head? {c : Store} {head : Block} (hh : c.head? = some head) :
    0 < c.height := by
  rw [height, List.length_pos_iff]
  rintro hnil
  simp [head?, hnil] at hh

/-- The head is the block at the last index. -/
theorem getElem_of_head? {c : Store} {head : Block} (hh : c.head? = some head) {i : Nat}
    (hi : i + 1 = c.blocks.length) : c.blocks[i] = head := by
  rw [head?, List.getLast?_eq_getElem?, show c.blocks.length - 1 = i by omega,
    List.getElem?_eq_getElem (by omega)] at hh
  exact Option.some.inj hh

/-- A block that links to the head keeps every block after the first linked to the one before
it. Both indices carry their own bounds. -/
theorem linked_append {c : Store} {head b : Block}
    (hl : ∀ i (_ : i < c.blocks.length) (h : i + 1 < c.blocks.length),
      c.blocks[i + 1].header.previousHash = c.blocks[i].hash)
    (hh : c.head? = some head) (hb : b.header.previousHash = head.hash) :
    ∀ i (_ : i < (c.blocks ++ [b]).length) (h : i + 1 < (c.blocks ++ [b]).length),
      (c.blocks ++ [b])[i + 1].header.previousHash = (c.blocks ++ [b])[i].hash := by
  intro i _ hi
  simp only [List.length_append, List.length_singleton] at hi
  rcases Nat.lt_or_eq_of_le (Nat.le_of_lt_succ hi) with h | h
  · rw [List.getElem_append_left h, List.getElem_append_left (by omega)]
    exact hl i (by omega) h
  · rw [List.getElem_concat_length h, List.getElem_append_left (by omega), getElem_of_head? hh h]
    exact hb

/-- **Appending keeps a chain valid.** A block numbered by the height that passes the validator
against the head, in the chain as it stands and without a window, continues a valid chain into a
valid chain. -/
theorem Valid.append {p : ChainParams} {c : Store} {head b : Block} {now : Int64}
    (hv : c.Valid p) (hh : c.head? = some head) (hb : b.blockNumber.toNat = c.height)
    (hcheck : Validator.check ⟨p, c⟩ b (some head.header) false now [] = .ok ()) :
    (⟨c.blocks ++ [b]⟩ : Store).Valid p where
  numbered := Numbered.append hv.numbered hb
  linked := by
    -- the new block links to the head, as the check against the head demands
    have hb' : b.header.blockNumber.toNat = c.blocks.length := hb
    have hpos : 0 < b.header.blockNumber := by
      rw [UInt64.lt_iff_toNat_lt, UInt64.toNat_zero, hb']
      exact height_pos_of_head? hh
    intro i h
    exact linked_append (fun i _ h => hv.linked i h) hh (Validator.previousHash_of_check hcheck hpos)
      i (Nat.lt_of_succ_lt h) h
  first_passes h now := by
    rw [List.getElem_append_left (height_pos_of_head? hh)]
    exact (Validator.check_congr fun _ hp => by cases hp).trans (hv.first_passes _ now)
  passes i hi now := by
    simp only [List.length_append, List.length_singleton] at hi
    -- the lookback of a block after the first stays inside the chain before it
    have hnext (j : Nat) (hj : j + 1 ≤ c.blocks.length) :
        Retarget.next p ⟨c.blocks ++ [b]⟩ c.blocks[j].header [] =
          Retarget.next p c c.blocks[j].header [] := by
      have hnum : c.blocks[j].header.blockNumber.toNat = j := hv.numbered j (by omega)
      exact Retarget.next_append b (by rw [hnum]; exact hj)
    rcases Nat.lt_or_eq_of_le (Nat.le_of_lt_succ hi) with h | h
    · -- a block already there
      rw [List.getElem_append_left h, List.getElem_append_left (by omega)]
      refine (Validator.check_congr fun prev hp => ?_).trans (hv.passes i h now)
      cases hp
      exact hnext i (by omega)
    · -- the new block, against the head
      have hlast := hnext i (by omega)
      rw [getElem_of_head? hh h] at hlast
      rw [List.getElem_concat_length h, List.getElem_append_left (by omega),
        getElem_of_head? hh h, Validator.check_now now]
      refine (Validator.check_congr fun prev hp => ?_).trans hcheck
      cases hp
      exact hlast

/-! ## Taking a block -/

/-- On a chain with head `head`, the chain appends exactly the block numbered by its height that
links to the head. -/
theorem append_eq_ok_iff {c c' : Store} {head : Block} (hh : c.head? = some head) (b : Block) :
    c.append b = .ok c' ↔ b.blockNumber.toNat = c.height ∧ b.header.previousHash = head.hash ∧
      c' = ⟨c.blocks ++ [b]⟩ := by
  have hpos := height_pos_of_head? hh
  by_cases hb : b.blockNumber.toNat = c.height
  · by_cases hl : b.header.previousHash = head.hash
    · simp [append, hb, hh, hl, eq_comm]
    · simp [append, hb, hh, hl, hpos]
  · simp [append, hb]

end Store

namespace Node

/-- A node takes a block exactly when it has a head, the block passes the check against the
head with the node's window, and the chain appends it; only the chain and the pool change. -/
theorem acceptBlock_eq_ok_iff {n n' : Node} {b : Block} {checkTime : Bool} {now : Int64} :
    n.acceptBlock b checkTime now = .ok n' ↔
      ∃ head, n.chain.head? = some head ∧
        Validator.check ⟨n.params, n.chain⟩ b (some head.header) checkTime now n.window = .ok () ∧
        ∃ c, n.chain.append b = .ok c ∧
          n' = { n with chain := c, pool := n.pool.prune b.transactions } := by
  unfold acceptBlock
  cases hh : n.chain.head? with
  | none => simp
  | some head =>
    cases hc : Validator.check ⟨n.params, n.chain⟩ b (some head.header) checkTime now n.window with
    | error r => simp [hc]
    | ok u =>
      cases n.chain.append b with
      | error e => simp [hc]
      | ok c => simp [hc, eq_comm]

/-- The node takes a block exactly when it has a head, the block passes the check against the
head with the node's window, and the block is numbered by the height: the check links it to the
head, since it comes after the first block. -/
theorem acceptBlock_isOk_iff {n : Node} {b : Block} {checkTime : Bool} {now : Int64} :
    (∃ n', n.acceptBlock b checkTime now = .ok n') ↔
      ∃ head, n.chain.head? = some head ∧
        Validator.check ⟨n.params, n.chain⟩ b (some head.header) checkTime now n.window = .ok () ∧
        b.blockNumber.toNat = n.chain.height := by
  constructor
  · rintro ⟨n', ha⟩
    obtain ⟨head, hh, hc, c, happ, -⟩ := acceptBlock_eq_ok_iff.1 ha
    exact ⟨head, hh, hc, ((Store.append_eq_ok_iff hh b).1 happ).1⟩
  · rintro ⟨head, hh, hc, hb⟩
    have hpos : 0 < b.header.blockNumber := by
      have hb' : b.header.blockNumber.toNat = n.chain.height := hb
      rw [UInt64.lt_iff_toNat_lt, UInt64.toNat_zero, hb']
      exact Store.height_pos_of_head? hh
    have happ : n.chain.append b = .ok ⟨n.chain.blocks ++ [b]⟩ :=
      (Store.append_eq_ok_iff hh b).2 ⟨hb, Validator.previousHash_of_check hc hpos, rfl⟩
    exact ⟨_, acceptBlock_eq_ok_iff.2 ⟨head, hh, hc, _, happ, rfl⟩⟩

/-- The check against the head with the node's window is the check without a window, in a
chain numbered from zero. -/
theorem check_window {n : Node} (hnum : n.chain.Numbered) {b : Block} {previous : Option Header}
    {checkTime : Bool} {now : Int64} :
    Validator.check ⟨n.params, n.chain⟩ b previous checkTime now n.window =
      Validator.check ⟨n.params, n.chain⟩ b previous checkTime now [] :=
  Validator.check_congr fun prev _ => Store.next_recentHeaders hnum _ prev

/-! ## Offering blocks one after another -/

/-- The node after `b` is offered to it: the node that takes the block, or the node as it was
when it refuses. -/
def offer (n : Node) (b : Block) (checkTime : Bool) (now : Int64) : Node :=
  match n.acceptBlock b checkTime now with
  | .ok n' => n'
  | .error _ => n

/-- The node after blocks are offered to it one after another, each with its own clock rule
and local time. -/
def offerAll (n : Node) (offers : List (Block × Bool × Int64)) : Node :=
  offers.foldl (fun m o => m.offer o.1 o.2.1 o.2.2) n

/-- A node whose chain has a first block and is valid under the node's settings. -/
structure ChainValid (n : Node) : Prop where
  nonempty : n.chain.blocks ≠ []
  valid : n.chain.Valid n.params

/-- Taking a block keeps the settings, appends the block, and keeps the chain valid. -/
theorem ChainValid.acceptBlock {n n' : Node} {b : Block} {checkTime : Bool} {now : Int64}
    (hn : n.ChainValid) (ha : n.acceptBlock b checkTime now = .ok n') :
    n'.params = n.params ∧ n'.chain = ⟨n.chain.blocks ++ [b]⟩ ∧ n'.ChainValid := by
  obtain ⟨head, hh, hc, c, happ, rfl⟩ := acceptBlock_eq_ok_iff.1 ha
  obtain ⟨hb, -, rfl⟩ := (Store.append_eq_ok_iff hh b).1 happ
  have hcheck := Validator.check_without_clock ((check_window hn.valid.numbered).symm.trans hc)
  exact ⟨rfl, rfl, List.append_ne_nil_of_right_ne_nil _ (List.cons_ne_nil _ _),
    hn.valid.append hh hb hcheck⟩

theorem ChainValid.offer {n : Node} (hn : n.ChainValid) (b : Block) (checkTime : Bool)
    (now : Int64) : (n.offer b checkTime now).params = n.params ∧
      (n.offer b checkTime now).ChainValid := by
  unfold Node.offer
  split
  · rename_i n' ha
    obtain ⟨hp, -, hn'⟩ := hn.acceptBlock ha
    exact ⟨hp, hn'⟩
  · exact ⟨rfl, hn⟩

/-- **Validity along every run.** Whatever blocks are offered, in whatever order and with
whatever clocks, the chain keeps a first block and stays valid under the node's settings, which
never change. -/
theorem ChainValid.offerAll {n : Node} (hn : n.ChainValid) (offers : List (Block × Bool × Int64)) :
    (n.offerAll offers).params = n.params ∧ (n.offerAll offers).ChainValid := by
  induction offers generalizing n with
  | nil => exact ⟨rfl, hn⟩
  | cons o offers ih =>
    obtain ⟨hp, hn'⟩ := hn.offer o.1 o.2.1 o.2.2
    obtain ⟨hp', hn''⟩ := ih hn'
    exact ⟨hp'.trans hp, hn''⟩

/-- **A node keeps its chain valid.** On a valid chain with a first block, a node takes a block
exactly when the block passes the validator against the head, with the last
`retargetInterval + 1` headers as the window, and carries the chain's height as its number.
Taking it keeps the settings and makes the chain the old one with the block appended, still
valid; and after any sequence of offered blocks, each taken or refused, the chain is valid. -/
theorem acceptBlock_extends_valid_chain (n : Node) (hne : n.chain.blocks ≠ [])
    (hv : n.chain.Valid n.params) (b : Block) (checkTime : Bool) (now : Int64) :
    ((∃ n', n.acceptBlock b checkTime now = .ok n') ↔
      ∃ head, n.chain.head? = some head ∧
        Validator.check ⟨n.params, n.chain⟩ b (some head.header) checkTime now
          (n.chain.recentHeaders (n.params.retargetInterval.toNat + 1)) = .ok () ∧
        b.blockNumber.toNat = n.chain.height) ∧
    (∀ n', n.acceptBlock b checkTime now = .ok n' →
      n'.params = n.params ∧ n'.chain.blocks = n.chain.blocks ++ [b] ∧
        n'.chain.Valid n'.params) ∧
    ∀ offers : List (Block × Bool × Int64),
      (n.offerAll offers).params = n.params ∧ (n.offerAll offers).chain.Valid n.params := by
  have hn : n.ChainValid := ⟨hne, hv⟩
  refine ⟨acceptBlock_isOk_iff, fun n' ha => ?_, fun offers => ?_⟩
  · obtain ⟨hp, hc, hn'⟩ := hn.acceptBlock ha
    exact ⟨hp, by rw [hc], hn'.valid⟩
  · obtain ⟨hp, hn'⟩ := hn.offerAll offers
    exact ⟨hp, hp ▸ hn'.valid⟩

/-- The first block passes the check against itself as head, since a block numbered zero skips
the linkage rules, but a node whose chain is that block alone refuses it: its number is not the
height. -/
theorem acceptBlock_refuses_genesis_again :
    ∃ g, Block.genesis ⟨"tessera-test", 1, 2, 10, 0, 600, Decimal.one, 0, 5, 120⟩ 1 = .ok g ∧
      (⟨[g]⟩ : Store).Valid ⟨"tessera-test", 1, 2, 10, 0, 600, Decimal.one, 0, 5, 120⟩ ∧
      Validator.check ⟨⟨"tessera-test", 1, 2, 10, 0, 600, Decimal.one, 0, 5, 120⟩, ⟨[g]⟩⟩ g
        (some g.header) false 0 (Node.make ⟨"tessera-test", 1, 2, 10, 0, 600, Decimal.one, 0, 5, 120⟩
          ⟨[g]⟩).window = .ok () ∧
      ¬ ∃ n', (Node.make ⟨"tessera-test", 1, 2, 10, 0, 600, Decimal.one, 0, 5, 120⟩
        ⟨[g]⟩).acceptBlock g false 0 = .ok n' := by
  set p : ChainParams := ⟨"tessera-test", 1, 2, 10, 0, 600, Decimal.one, 0, 5, 120⟩
  have hmeets : (Block.genesisTemplate p).hash.meets (Target.ofDifficulty p p.initialDifficulty) =
      true := by
    rw [show p.initialDifficulty = Decimal.one from rfl, Target.ofDifficulty_one rfl]
    exact Digest.meets_all_ones (Mining.length_hash _)
  have hgen := Block.genesis_of_meets 0 hmeets
  obtain ⟨hpass, c, -, hc, hv⟩ := Block.genesis_passes_check hgen
  obtain rfl : c = ⟨[_]⟩ := by cases c; cases hc; rfl
  refine ⟨_, hgen, hv, hpass _ _ _ _, fun hok => ?_⟩
  obtain ⟨-, -, -, hb⟩ :=
    ((acceptBlock_extends_valid_chain (Node.make p ⟨[_]⟩) (List.cons_ne_nil _ _) hv _ false 0).1).1
      hok
  -- the first block is numbered zero, the chain's height is one
  have h0 := hv.numbered 0 (by simp)
  simp only [List.getElem_cons_zero] at h0
  rw [h0] at hb
  cases hb

end Node

end WorkLedger
