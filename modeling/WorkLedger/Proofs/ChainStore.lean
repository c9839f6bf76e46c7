import WorkLedger.Proofs.Accept
import WorkLedger.Proofs.Saved

/-!
# A chain in memory, its hash index and its saved text

A chain appends exactly the block numbered by its height that links to its head, if it has one
(`Store.append_eq_ok_iff_continues`). So along every sequence of append calls, each of which
either succeeds or leaves the chain as it was, block `i` is numbered `i` and links to block
`i - 1` (`Store.Chained`), and the hash index kept beside the blocks, one insertion per block
appended, is the index the blocks rebuild (`IndexedStore.Inv`).

That index keeps, under each hash, the number of the last block stored with it
(`Store.index_eq`). In a chain numbered from zero the block of a number sits at that position, so
a lookup by number finds the block of the number (`Store.block?_eq_find?`) and a lookup by hash
finds the last block stored with the hash (`Store.blockByHash?_eq`). Nothing asks a block's hash
to be its own, so several blocks may carry one hash; the later one then shadows the earlier.

A saved chain loads back with each block's difficulty as its text reads (`Store.load_save`).
Reading back keeps every hash and number, so the index rebuilt on loading is the index the chain
kept (`Store.index_reread`), and the chain loaded compares equal to the chain saved exactly when
each difficulty read back compares equal to the difficulty written (`Store.blocks_beq_reread`).
-/

namespace WorkLedger

open Json

namespace Store

/-! ## Appending -/

/-- Whether `b` continues `s`: it is numbered by the height and links to the head, if any. -/
def Continues (s : Store) (b : Block) : Prop :=
  b.blockNumber.toNat = s.height ∧ ∀ head ∈ s.head?, b.header.previousHash = head.hash

instance (s : Store) (b : Block) : Decidable (s.Continues b) :=
  inferInstanceAs (Decidable (_ ∧ _))

/-- A chain appends exactly the blocks that continue it, at its end. -/
theorem append_eq_ok_iff_continues {s s' : Store} {b : Block} :
    s.append b = .ok s' ↔ s.Continues b ∧ s' = ⟨s.blocks ++ [b]⟩ := by
  cases hh : s.head? with
  | none =>
    by_cases hb : b.blockNumber.toNat = s.height
    · simp [append, hb, hh, Continues, eq_comm]
    · simp [append, hb, Continues]
  | some head =>
    rw [append_eq_ok_iff hh]
    simp [Continues, hh, and_assoc]

/-- A chain fails to append exactly the blocks that do not continue it. -/
theorem append_eq_error_iff (s : Store) (b : Block) :
    (∃ e, s.append b = .error e) ↔ ¬s.Continues b := by
  constructor
  · rintro ⟨e, he⟩ hb
    rw [append_eq_ok_iff_continues.2 ⟨hb, rfl⟩] at he
    cases he
  · intro hb
    cases h : s.append b with
    | ok s' => exact absurd (append_eq_ok_iff_continues.1 h).1 hb
    | error e => exact ⟨e, rfl⟩

/-- A chain numbered from zero whose every block after the first links to the block before it. -/
structure Chained (s : Store) : Prop where
  numbered : s.Numbered
  linked : ∀ i (_ : i < s.blocks.length) (h : i + 1 < s.blocks.length),
    s.blocks[i + 1].header.previousHash = s.blocks[i].hash

theorem Chained.empty : Store.empty.Chained :=
  ⟨fun i h => absurd h (Nat.not_lt_zero i), fun i h _ => absurd h (Nat.not_lt_zero i)⟩

/-- Appending keeps a chain numbered and linked. -/
theorem Chained.append {s s' : Store} {b : Block} (hs : s.Chained) (h : s.append b = .ok s') :
    s'.Chained := by
  obtain ⟨⟨hnum, hlink⟩, rfl⟩ := append_eq_ok_iff_continues.1 h
  refine ⟨hs.numbered.append hnum, ?_⟩
  cases hh : s.head? with
  | none =>
    -- the first block has no block before it
    have hnil : s.blocks = [] := List.getLast?_eq_none_iff.1 hh
    intro i _ hi
    simp [hnil] at hi
  | some head => exact linked_append hs.linked hh (hlink head hh)

/-! ## The hash index -/

theorem index_append (s : Store) (b : Block) :
    (⟨s.blocks ++ [b]⟩ : Store).index = s.index.insert b.hash b.blockNumber := by
  simp only [index, List.foldl_append, List.foldl_cons, List.foldl_nil]

/-- The index keeps, under each hash, the number of the last block stored with it. -/
theorem index_eq (s : Store) (x : Digest) :
    s.index x = (s.blocks.reverse.find? (·.hash = x)).map (·.blockNumber) := by
  obtain ⟨blocks⟩ := s
  induction blocks using List.reverseRecOn with
  | nil => rfl
  | append_singleton l b ih =>
    rw [index_append ⟨l⟩ b, HashIndex.insert, List.reverse_append, List.reverse_singleton,
      List.singleton_append, List.find?_cons]
    by_cases hx : x = b.hash
    · simp [hx]
    · simp [hx, Ne.symm hx, ih]

/-! ## Lookups -/

theorem block?_eq_none_iff (s : Store) (n : Nat) : s.block? n = none ↔ s.height ≤ n :=
  List.getElem?_eq_none_iff

/-- The head is the block of the last position. -/
theorem head?_eq_block? (s : Store) : s.head? = s.block? (s.height - 1) :=
  List.getLast?_eq_getElem?

/-- In a chain numbered from zero, the block at position `n` is the block numbered `n`. -/
theorem block?_eq_find? {s : Store} (hnum : s.Numbered) (n : Nat) :
    s.block? n = s.blocks.find? (·.blockNumber.toNat = n) := by
  by_cases hn : n < s.blocks.length
  · rw [block?, List.getElem?_eq_getElem hn, eq_comm, List.find?_eq_some_iff_getElem]
    refine ⟨by simp [hnum n hn], n, hn, rfl, fun j hj => ?_⟩
    simp [hnum j (by omega)]
    omega
  · rw [block?, List.getElem?_eq_none (by omega), eq_comm, List.find?_eq_none]
    intro b hb
    obtain ⟨i, hi, rfl⟩ := List.mem_iff_getElem.1 hb
    simp [hnum i hi]
    omega

/-- The headers of the blocks from position `m` on are the headers of positions `m` onward. -/
theorem map_header_drop (s : Store) (m : Nat) :
    (s.blocks.drop m).map (·.header) = (List.range' m (s.height - m)).filterMap s.header? := by
  induction hk : s.height - m generalizing m with
  | zero =>
    have hm : s.blocks.length ≤ m := by
      simp only [height] at hk
      omega
    simp [List.drop_eq_nil_of_le hm]
  | succ k ih =>
    have hm : m < s.blocks.length := by
      simp only [height] at hk
      omega
    rw [List.drop_eq_getElem_cons hm, List.range'_succ, List.filterMap_cons, header?, block?,
      List.getElem?_eq_getElem hm, List.map_cons, ih (m + 1) (by omega)]
    rfl

/-- The recent headers are those of the last `min k height` positions, oldest first. -/
theorem recentHeaders_eq (s : Store) (k : Nat) :
    s.recentHeaders k =
      (List.range' (s.height - min k s.height) (min k s.height)).filterMap s.header? := by
  rw [recentHeaders, show s.height - k = s.height - min k s.height by omega, map_header_drop,
    show s.height - (s.height - min k s.height) = min k s.height by omega]

theorem length_recentHeaders (s : Store) (k : Nat) :
    (s.recentHeaders k).length = min k s.height := by
  simp only [recentHeaders, List.length_map, List.length_drop, height]
  omega

/-- In a chain numbered from zero, a lookup by hash finds the last block stored with the hash. -/
theorem blockByHash?_eq {s : Store} (hnum : s.Numbered) (x : Digest) :
    s.blockByHash? x = s.blocks.reverse.find? (·.hash = x) := by
  rw [blockByHash?, index_eq]
  cases hf : s.blocks.reverse.find? (·.hash = x) with
  | none => rfl
  | some b => exact block?_of_mem hnum (List.mem_reverse.1 (List.mem_of_find?_eq_some hf))

/-- A lookup by hash finds a block exactly when one is stored with the hash. -/
theorem isSome_blockByHash? {s : Store} (hnum : s.Numbered) (x : Digest) :
    (s.blockByHash? x).isSome ↔ ∃ b ∈ s.blocks, b.hash = x := by
  rw [blockByHash?_eq hnum, List.find?_isSome]
  simp

/-- A lookup by hash finds `b` exactly when `b` is stored with the hash and no block after it
carries the hash. -/
theorem blockByHash?_eq_some_iff {s : Store} (hnum : s.Numbered) (x : Digest) (b : Block) :
    s.blockByHash? x = some b ↔
      ∃ pre post, s.blocks = pre ++ b :: post ∧ b.hash = x ∧
        ∀ a ∈ post, a.hash ≠ x := by
  rw [blockByHash?_eq hnum, List.find?_eq_some_iff_append]
  constructor
  · rintro ⟨hb, later, earlier, hrev, hlater⟩
    refine ⟨earlier.reverse, later.reverse, ?_, by simpa using hb, fun a ha => ?_⟩
    · rw [← List.reverse_reverse s.blocks, hrev]
      simp
    · simpa using hlater a (List.mem_reverse.1 ha)
  · rintro ⟨pre, post, hs, hb, hpost⟩
    refine ⟨by simpa using hb, post.reverse, pre.reverse, by simp [hs], fun a ha => ?_⟩
    simpa using hpost a (List.mem_reverse.1 ha)

end Store

/-! ## Append calls, successful or failing -/

namespace IndexedStore

/-- What every chain reached by append calls satisfies: it is numbered and linked, and the index
kept beside it is the index its blocks rebuild. -/
structure Inv (c : IndexedStore) : Prop where
  chained : c.store.Chained
  tracks : c.byHash = c.store.index

theorem Inv.empty : IndexedStore.empty.Inv := ⟨Store.Chained.empty, rfl⟩

/-- An append call takes exactly the block that continues the chain, inserting its hash in the
index, and otherwise leaves the chain and the index as they were. -/
theorem tryAppend_eq (c : IndexedStore) (b : Block) :
    c.tryAppend b = if c.store.Continues b then
      ⟨⟨c.store.blocks ++ [b]⟩, c.byHash.insert b.hash b.blockNumber⟩ else c := by
  by_cases hb : c.store.Continues b
  · have happ := Store.append_eq_ok_iff_continues.2 ⟨hb, rfl⟩
    simp [tryAppend, append, happ, hb]
  · obtain ⟨e, he⟩ := (Store.append_eq_error_iff c.store b).2 hb
    simp [tryAppend, append, he, hb]

theorem append_eq_error_iff (c : IndexedStore) (b : Block) :
    (∃ e, c.append b = .error e) ↔ ¬c.store.Continues b := by
  rw [← Store.append_eq_error_iff, append]
  cases c.store.append b <;> simp

theorem Inv.tryAppend {c : IndexedStore} (hc : c.Inv) (b : Block) : (c.tryAppend b).Inv := by
  rw [tryAppend_eq]
  split
  · next hb =>
    exact ⟨hc.chained.append (Store.append_eq_ok_iff_continues.2 ⟨hb, rfl⟩),
      by rw [Store.index_append, hc.tracks]⟩
  · exact hc

theorem Inv.foldl {c : IndexedStore} (hc : c.Inv) (calls : List Block) :
    (calls.foldl IndexedStore.tryAppend c).Inv := by
  induction calls generalizing c with
  | nil => exact hc
  | cons b rest ih => exact ih (hc.tryAppend b)

/-- The kept index finds what the rebuilt index finds. -/
theorem Inv.blockByHash?_eq {c : IndexedStore} (hc : c.Inv) (x : Digest) :
    c.blockByHash? x = c.store.blockByHash? x := by
  rw [IndexedStore.blockByHash?, Store.blockByHash?, hc.tracks]

/-- Every block stored by append calls is one of the blocks appended. -/
theorem mem_foldl (c : IndexedStore) (calls : List Block) {b : Block}
    (hb : b ∈ (calls.foldl tryAppend c).store.blocks) : b ∈ c.store.blocks ∨ b ∈ calls := by
  induction calls generalizing c with
  | nil => exact .inl hb
  | cons a rest ih =>
    rcases ih (c.tryAppend a) hb with h | h
    · rw [tryAppend_eq] at h
      split at h
      · simp only [List.mem_append, List.mem_singleton] at h
        rcases h with h | rfl
        · exact .inl h
        · exact .inr List.mem_cons_self
      · exact .inl h
    · exact .inr (List.mem_cons_of_mem a h)

end IndexedStore

/-! ## Saved chains -/

namespace Store

/-- The datum a chain's object stands for. -/
def datum (s : Store) : Datum := .fields [.items (s.blocks.map Block.datum)]

/-- The object of a chain has the chain's shape, when every difficulty's scale fits 64 bits. -/
theorem describes (s : Store)
    (hs : ∀ b ∈ s.blocks,
      -2 ^ 63 ≤ b.header.fields.difficulty.scale ∧ b.header.fields.difficulty.scale < 2 ^ 63) :
    Shape.Describes 5 shape s.toJson s.datum := by
  have hblocks := Shape.Describes.list (s.blocks.map fun b => (b.toJson, b.datum)) fun e he => by
    obtain ⟨b, hb, rfl⟩ := List.mem_map.1 he
    exact b.describes (hs b hb)
  rw [List.map_map, List.map_map] at hblocks
  refine .record (n := 4) "MemoryChain"
    [("blocks", .list Block.shape, .arr (s.blocks.map Block.toJson),
      .items (s.blocks.map Block.datum))] (by simp) ?_
  intro e he
  rw [List.mem_singleton] at he
  subst he
  exact hblocks

theorem ofDatum_datum (s : Store) : ofDatum s.datum = ⟨s.blocks.map Block.reread⟩ := by
  simp [ofDatum, datum, Datum.field, Datum.itemsD, Function.comp_def, Block.ofDatum_datum]

/-- **A saved chain loads back** with each block's difficulty as its text reads, when every
difficulty's scale fits 64 bits. -/
theorem load_save (s : Store)
    (hs : ∀ b ∈ s.blocks,
      -2 ^ 63 ≤ b.header.fields.difficulty.scale ∧ b.header.fields.difficulty.scale < 2 ^ 63) :
    load s.save = .ok ⟨s.blocks.map Block.reread⟩ := by
  rw [load, save, loadEntity, Json.compact, (s.describes hs).readText_compact (by decide)]
  exact congrArg Except.ok s.ofDatum_datum

/-- Reading back keeps every hash and number, so the index too. -/
theorem index_reread (s : Store) : (⟨s.blocks.map Block.reread⟩ : Store).index = s.index := by
  simp only [index, List.foldl_map]
  rfl

theorem blockByHash?_reread (s : Store) (x : Digest) :
    (⟨s.blocks.map Block.reread⟩ : Store).blockByHash? x =
      (s.blockByHash? x).map Block.reread := by
  simp only [blockByHash?, index_reread, block?, List.getElem?_map, Option.map_bind,
    Function.comp_def]

/-- Blocks read back compare equal to the blocks written exactly when each difficulty read back
compares equal to the difficulty written. -/
theorem blocks_beq_reread (blocks : List Block) :
    (blocks.map Block.reread == blocks) =
      blocks.all fun b => b.header.fields.difficulty.reread == b.header.fields.difficulty := by
  induction blocks with
  | nil => rfl
  | cons b rest ih => rw [List.map_cons, List.cons_beq_cons, Block.beq_reread, ih, List.all_cons]

end Store

/-! ## The chain store as a whole -/

/-- **Append calls keep a chain numbered, linked and indexed, and saving keeps its index.** Along
every sequence of append calls from the empty chain, each of which succeeds or leaves the chain
and its index as they were: block `i` is numbered `i` and links to block `i - 1`; an append takes
exactly the block that continues the chain, with its hash inserted in the index, and fails
otherwise; a lookup by number finds the block of the number, and none from the height on; the
head is the last block; the recent headers are those of the last `min k height` blocks, oldest
first; the kept index finds a block for a hash exactly when one is stored with it, and then the
last one stored with it. When every difficulty's scale fits 64 bits, the chain saved loads back
with each difficulty as its text reads; the index rebuilt on loading is the index kept, finds
the blocks it found, read back, and the chain loaded compares equal to the chain saved exactly
when each difficulty read back compares equal to the one written. -/
theorem appended_chain_stays_numbered_and_indexed (calls : List Block)
    (hs : ∀ b ∈ calls,
      -2 ^ 63 ≤ b.header.fields.difficulty.scale ∧ b.header.fields.difficulty.scale < 2 ^ 63) :
    let c := calls.foldl IndexedStore.tryAppend IndexedStore.empty
    (∀ i (h : i < c.store.blocks.length), c.store.blocks[i].blockNumber.toNat = i) ∧
    (∀ i (h : i + 1 < c.store.blocks.length),
      c.store.blocks[i + 1].header.previousHash = c.store.blocks[i].hash) ∧
    (∀ b, c.tryAppend b = if c.store.Continues b then
      ⟨⟨c.store.blocks ++ [b]⟩, c.byHash.insert b.hash b.blockNumber⟩ else c) ∧
    (∀ b, (∃ e, c.append b = .error e) ↔ ¬c.store.Continues b) ∧
    (∀ n, c.store.block? n = c.store.blocks.find? (·.blockNumber.toNat = n) ∧
      c.store.header? n = (c.store.blocks.find? (·.blockNumber.toNat = n)).map (·.header)) ∧
    (∀ n, c.store.block? n = none ↔ c.store.height ≤ n) ∧
    c.store.head? = c.store.block? (c.store.height - 1) ∧
    (∀ k, c.store.recentHeaders k = (List.range' (c.store.height - min k c.store.height)
        (min k c.store.height)).filterMap c.store.header? ∧
      (c.store.recentHeaders k).length = min k c.store.height) ∧
    (∀ x, (c.blockByHash? x).isSome ↔ ∃ b ∈ c.store.blocks, b.hash = x) ∧
    (∀ x b, c.blockByHash? x = some b ↔
      ∃ pre post, c.store.blocks = pre ++ b :: post ∧ b.hash = x ∧
        ∀ a ∈ post, a.hash ≠ x) ∧
    ∃ loaded, Store.load c.store.save = .ok loaded ∧
      loaded.blocks = c.store.blocks.map Block.reread ∧ loaded.index = c.byHash ∧
      (∀ x, loaded.blockByHash? x = (c.blockByHash? x).map Block.reread) ∧
      (loaded.blocks == c.store.blocks) =
        c.store.blocks.all fun b =>
          b.header.fields.difficulty.reread == b.header.fields.difficulty := by
  intro c
  have hc : c.Inv := IndexedStore.Inv.empty.foldl calls
  have hnum := hc.chained.numbered
  -- the blocks stored are among the blocks appended, so their scales fit
  have hfits : ∀ b ∈ c.store.blocks,
      -2 ^ 63 ≤ b.header.fields.difficulty.scale ∧ b.header.fields.difficulty.scale < 2 ^ 63 :=
    fun b hb => hs b ((IndexedStore.mem_foldl _ calls hb).resolve_left List.not_mem_nil)
  refine ⟨hnum, fun i h => hc.chained.linked i (Nat.lt_of_succ_lt h) h, c.tryAppend_eq, c.append_eq_error_iff,
    fun n => ⟨Store.block?_eq_find? hnum n, by rw [Store.header?, Store.block?_eq_find? hnum]⟩,
    c.store.block?_eq_none_iff, c.store.head?_eq_block?,
    fun k => ⟨c.store.recentHeaders_eq k, c.store.length_recentHeaders k⟩, fun x => ?_,
    fun x b => ?_,
    ⟨_, c.store.load_save hfits, rfl, ?_, fun x => ?_, Store.blocks_beq_reread _⟩⟩
  · rw [hc.blockByHash?_eq]
    exact Store.isSome_blockByHash? hnum x
  · rw [hc.blockByHash?_eq]
    exact Store.blockByHash?_eq_some_iff hnum x b
  · rw [Store.index_reread, hc.tracks]
  · rw [hc.blockByHash?_eq, Store.blockByHash?_reread]

/-- The block after the block with the wide difficulty, storing the same hash as it. -/
def wideRepeat : Block := ⟨⟨{ wideHeader.fields with blockNumber := 1 }, wideHeader.hash⟩, []⟩

/-- Appends of the block with the wide difficulty, of the same block again, which the chain
refuses as its number is no longer the height, and of a block after it that stores the same
hash: the index then finds the later of the two. -/
theorem appended_wide_blocks_stay_numbered_and_indexed :
    (∀ b ∈ [wideBlock, wideBlock, wideRepeat],
      -2 ^ 63 ≤ b.header.fields.difficulty.scale ∧
        b.header.fields.difficulty.scale < 2 ^ 63) ∧
    let c := [wideBlock, wideBlock, wideRepeat].foldl IndexedStore.tryAppend IndexedStore.empty
    c.store.blocks = [wideBlock, wideRepeat] ∧ wideRepeat.hash = wideBlock.hash ∧
    (∀ i (h : i < c.store.blocks.length), c.store.blocks[i].blockNumber.toNat = i) ∧
    (∀ i (h : i + 1 < c.store.blocks.length),
      c.store.blocks[i + 1].header.previousHash = c.store.blocks[i].hash) ∧
    (∀ b, c.tryAppend b = if c.store.Continues b then
      ⟨⟨c.store.blocks ++ [b]⟩, c.byHash.insert b.hash b.blockNumber⟩ else c) ∧
    (∀ b, (∃ e, c.append b = .error e) ↔ ¬c.store.Continues b) ∧
    (∀ n, c.store.block? n = c.store.blocks.find? (·.blockNumber.toNat = n) ∧
      c.store.header? n = (c.store.blocks.find? (·.blockNumber.toNat = n)).map (·.header)) ∧
    (∀ n, c.store.block? n = none ↔ c.store.height ≤ n) ∧
    c.store.head? = c.store.block? (c.store.height - 1) ∧
    (∀ k, c.store.recentHeaders k = (List.range' (c.store.height - min k c.store.height)
        (min k c.store.height)).filterMap c.store.header? ∧
      (c.store.recentHeaders k).length = min k c.store.height) ∧
    (∀ x, (c.blockByHash? x).isSome ↔ ∃ b ∈ c.store.blocks, b.hash = x) ∧
    (∀ x b, c.blockByHash? x = some b ↔
      ∃ pre post, c.store.blocks = pre ++ b :: post ∧ b.hash = x ∧
        ∀ a ∈ post, a.hash ≠ x) ∧
    ∃ loaded, Store.load c.store.save = .ok loaded ∧
      loaded.blocks = c.store.blocks.map Block.reread ∧ loaded.index = c.byHash ∧
      (∀ x, loaded.blockByHash? x = (c.blockByHash? x).map Block.reread) ∧
      (loaded.blocks == c.store.blocks) =
        c.store.blocks.all fun b =>
          b.header.fields.difficulty.reread == b.header.fields.difficulty := by
  have hs : ∀ b ∈ [wideBlock, wideBlock, wideRepeat],
      -2 ^ 63 ≤ b.header.fields.difficulty.scale ∧
        b.header.fields.difficulty.scale < 2 ^ 63 := by
    decide
  -- the second append is refused: the chain's height is one, the block's number zero
  have hblocks : ([wideBlock, wideBlock, wideRepeat].foldl IndexedStore.tryAppend
      IndexedStore.empty).store.blocks = [wideBlock, wideRepeat] := by
    rw [List.foldl_cons, List.foldl_cons, List.foldl_cons, List.foldl_nil,
      IndexedStore.tryAppend_eq, if_pos (by decide), IndexedStore.tryAppend_eq,
      if_neg (by decide), IndexedStore.tryAppend_eq, if_pos (by decide)]
    rfl
  exact ⟨hs, hblocks, rfl, appended_chain_stays_numbered_and_indexed _ hs⟩

/-- **A chain of one block with the wide difficulty reloads unequal to itself.** The block is
appended, the chain saved loads back, and the block loaded compares unequal to the block
saved. -/
theorem wide_difficulty_chain_reloads_unequal :
    let c := [wideBlock].foldl IndexedStore.tryAppend IndexedStore.empty
    c.store.blocks = [wideBlock] ∧ Store.load c.store.save = .ok ⟨[wideBlock.reread]⟩ ∧
      ([wideBlock.reread] == c.store.blocks) = false := by
  have hc : [wideBlock].foldl IndexedStore.tryAppend IndexedStore.empty =
      ⟨⟨[wideBlock]⟩, HashIndex.empty.insert wideBlock.hash wideBlock.blockNumber⟩ := by
    rw [List.foldl_cons, List.foldl_nil, IndexedStore.tryAppend_eq, if_pos (by decide)]
    rfl
  simp only [hc]
  refine ⟨trivial, Store.load_save ⟨[wideBlock]⟩ (by decide), ?_⟩
  show ([wideBlock].map Block.reread == [wideBlock]) = false
  rw [Store.blocks_beq_reread, List.all_cons, List.all_nil, Bool.and_true]
  exact wideHeader_difficulty_reread_beq

end WorkLedger
