import WorkLedger.Proofs.ChainStore

/-!
# Retargeting through a window of the chain

A node checks a block against its head with the chain's last headers as a window, so that the
retarget lookback reads the window rather than the chain. The lookback finds a header by the
number the header carries in the window, but by position in the chain. The two agree because a
chain built by appending is numbered from zero: a header of the chain found in a window by its
number is the chain's header of that number. So any window made of the chain's headers, in any
order and with any of them left out, retargets as the chain alone does
(`Store.next_of_subset`).

The lookback after the head never leaves the chain: it goes back at most to block zero, and the
head is the last block, so the header looked back to is always there and retargeting after the
head succeeds (`Store.next_after_head`). A block checked against the head therefore never hears
that its expected difficulty could not be computed (`Validator.check_ne_unavailable`).
-/

namespace WorkLedger

namespace Validator

/-- Only the linkage rules can find the expected difficulty unavailable. -/
theorem checkLinkage_of_check_unavailable {v : Validator} {b : Block} {previous : Option Header}
    {checkTime : Bool} {now : Int64} {window : List Header} {n : UInt64} {cause : String}
    (h : v.check b previous checkTime now window = .error (.difficultyUnavailable n cause)) :
    v.checkLinkage b.header previous window = .error (.difficultyUnavailable n cause) := by
  simp only [check, bind_eq_error_unit, require_eq_error_iff] at h
  by_cases hn : 0 < b.header.blockNumber <;> cases checkTime <;>
    simp_all [pure, Except.pure, bind_eq_error_unit, require_eq_error_iff]

/-- When retargeting after the previous header succeeds, the linkage rules reject a block, if at
all, for its number, its previous hash or its difficulty. -/
theorem checkLinkage_ne_unavailable {v : Validator} {h prev : Header} {window : List Header}
    {d : Decimal} (hd : Retarget.next v.params v.store prev window = .ok d) (n : UInt64)
    (cause : String) :
    v.checkLinkage h (some prev) window ≠ .error (.difficultyUnavailable n cause) := by
  simp [checkLinkage, hd, bind_eq_error_unit, require_eq_error_iff]

/-- A block checked after a header that retargets is never told that its expected difficulty
could not be computed. -/
theorem check_ne_unavailable {v : Validator} {b : Block} {prev : Header} {checkTime : Bool}
    {now : Int64} {window : List Header} {d : Decimal}
    (hd : Retarget.next v.params v.store prev window = .ok d) (n : UInt64) (cause : String) :
    v.check b (some prev) checkTime now window ≠ .error (.difficultyUnavailable n cause) :=
  fun h => checkLinkage_ne_unavailable hd n cause (checkLinkage_of_check_unavailable h)

end Validator

namespace Store

/-- In a chain numbered from zero, a window of the chain's headers gives the lookups of the
chain. -/
theorem lookup_of_subset {c : Store} (hnum : c.Numbered) {w : List Header}
    (hw : w ⊆ c.blocks.map (·.header)) (n : UInt64) :
    Retarget.lookup c w n = Retarget.lookup c [] n := by
  refine Retarget.lookup_of_window n fun h hh => ?_
  obtain ⟨b, hb, rfl⟩ := List.mem_map.1 (hw hh)
  exact header?_of_mem hnum hb

theorem next_of_subset {p : ChainParams} {c : Store} (hnum : c.Numbered) {w : List Header}
    (hw : w ⊆ c.blocks.map (·.header)) (h : Header) :
    Retarget.next p c h w = Retarget.next p c h [] :=
  Retarget.next_congr (lookup_of_subset hnum hw _)

/-- The recent headers are headers of the chain. -/
theorem recentHeaders_subset (c : Store) (k : Nat) :
    c.recentHeaders k ⊆ c.blocks.map (·.header) :=
  fun _ hh => List.map_subset _ (fun _ => List.mem_of_mem_drop) hh

/-- In a chain numbered from zero, the head carries the number just below the height. -/
theorem head_number {c : Store} (hnum : c.Numbered) {head : Block} (hh : c.head? = some head) :
    head.blockNumber.toNat + 1 = c.height := by
  have hpos := height_pos_of_head? hh
  have hi : c.height - 1 < c.blocks.length := by simp only [height] at hpos ⊢; omega
  have hlast : c.blocks[c.height - 1] = head :=
    getElem_of_head? hh (by simp only [height] at hi ⊢; omega)
  rw [← hlast, hnum]
  omega

/-- The header `interval` numbers before the head, never before block zero, is in the chain. -/
theorem lookup_before_head {c : Store} (hnum : c.Numbered) {head : Block}
    (hh : c.head? = some head) (interval : UInt64) :
    ∃ earlier, Retarget.lookup c [] (head.header.blockNumber -
      min head.header.blockNumber interval) = .ok earlier := by
  have hk := UInt64.toNat_sub_min head.header.blockNumber interval
  have hlt : (head.header.blockNumber - min head.header.blockNumber interval).toNat < c.height := by
    have := head_number hnum hh
    simp only [Block.blockNumber] at this
    omega
  obtain ⟨b, hb⟩ : ∃ b, c.blocks[(head.header.blockNumber -
      min head.header.blockNumber interval).toNat]? = some b :=
    ⟨_, List.getElem?_eq_getElem hlt⟩
  refine ⟨b.header, ?_⟩
  rw [Retarget.lookup_nil, header?, block?, hb]
  rfl

/-- **Retargeting after the head succeeds** in a chain numbered from zero, whatever the
settings: off a boundary the head's difficulty stands, and on one the header looked back to is
in the chain. -/
theorem next_after_head {p : ChainParams} {c : Store} (hnum : c.Numbered) {head : Block}
    (hh : c.head? = some head) : ∃ d, Retarget.next p c head.header [] = .ok d := by
  obtain ⟨earlier, he⟩ := lookup_before_head hnum hh p.retargetInterval
  simp only [Retarget.next, he]
  split
  · exact ⟨_, rfl⟩
  · exact ⟨_, rfl⟩

end Store

/-- **A window of the chain retargets as the chain does.** Take a chain built by append calls,
each of which succeeds or leaves the chain as it was, and its head. Retargeting after the head
succeeds under every settings. For every window whose headers are all headers of the chain
(every sub-list of them, and the recent headers a node checks with among them), retargeting
after the head through the window gives what it gives through the chain alone; so a block checked
against the head gets the same verdict with the window as without one, and never the verdict that
its expected difficulty is unavailable. -/
theorem window_retargets_as_chain (calls : List Block) (p : ChainParams) :
    let c := (calls.foldl IndexedStore.tryAppend IndexedStore.empty).store
    ∀ head ∈ c.head?,
      (∃ d, Retarget.next p c head.header [] = .ok d) ∧
      (∀ k, c.recentHeaders k ⊆ c.blocks.map (·.header)) ∧
      ∀ w : List Header, w ⊆ c.blocks.map (·.header) →
        Retarget.next p c head.header w = Retarget.next p c head.header [] ∧
        ∀ (b : Block) (checkTime : Bool) (now : Int64),
          Validator.check ⟨p, c⟩ b (some head.header) checkTime now w =
            Validator.check ⟨p, c⟩ b (some head.header) checkTime now [] ∧
          ∀ n cause, Validator.check ⟨p, c⟩ b (some head.header) checkTime now w ≠
            .error (.difficultyUnavailable n cause) := by
  intro c head hh
  have hnum : c.Numbered := (IndexedStore.Inv.empty.foldl calls).chained.numbered
  obtain ⟨d, hd⟩ := Store.next_after_head (p := p) hnum hh
  refine ⟨⟨d, hd⟩, c.recentHeaders_subset, fun w hw => ?_⟩
  have hnext := Store.next_of_subset (p := p) hnum hw head.header
  refine ⟨hnext, fun b checkTime now => ⟨?_, ?_⟩⟩
  · exact Validator.check_congr fun prev hp => by cases hp; exact hnext
  · exact Validator.check_ne_unavailable (hnext.trans hd)

/-- A first block without transactions. -/
def blockZero : Block :=
  ⟨⟨⟨1, "tessera-test", 0, Digest.zero, Digest.zero, 0, Decimal.one, 0, ""⟩, Digest.zero⟩,
    []⟩

/-- The block after `blockZero`, ten seconds later. With two blocks to an interval, it closes
the first interval, so the difficulty after it is retargeted. -/
def blockOne : Block :=
  ⟨⟨⟨1, "tessera-test", 1, Digest.zero, Digest.zero, 10000, Decimal.one, 0, ""⟩, Digest.zero⟩,
    []⟩

/-- The chain of the two blocks, whose head closes an interval, checked with the window of its
last three headers: the retarget looks back to block zero, in the window and in the chain. -/
theorem window_retargets_as_chain_after_block_one :
    let c := ([blockZero, blockOne].foldl IndexedStore.tryAppend IndexedStore.empty).store
    (blockOne.header.blockNumber + 1) % ChainParams.testing.retargetInterval = 0 ∧
    blockOne ∈ c.head? ∧ c.recentHeaders 3 ⊆ c.blocks.map (·.header) ∧
      (∃ d, Retarget.next ChainParams.testing c blockOne.header [] = .ok d) ∧
      Retarget.next ChainParams.testing c blockOne.header (c.recentHeaders 3) =
        Retarget.next ChainParams.testing c blockOne.header [] ∧
      ∀ (b : Block) (checkTime : Bool) (now : Int64),
        Validator.check ⟨ChainParams.testing, c⟩ b (some blockOne.header) checkTime now
            (c.recentHeaders 3) =
          Validator.check ⟨ChainParams.testing, c⟩ b (some blockOne.header) checkTime now
            [] ∧
        ∀ n cause, Validator.check ⟨ChainParams.testing, c⟩ b (some blockOne.header)
          checkTime now (c.recentHeaders 3) ≠ .error (.difficultyUnavailable n cause) := by
  intro c
  have hc : c = ⟨[blockZero, blockOne]⟩ := by
    show ([blockZero, blockOne].foldl IndexedStore.tryAppend IndexedStore.empty).store = _
    rw [List.foldl_cons, List.foldl_cons, List.foldl_nil, IndexedStore.tryAppend_eq,
      if_pos (by decide), IndexedStore.tryAppend_eq, if_pos (by decide)]
    rfl
  have hh : blockOne ∈ c.head? := by rw [hc]; rfl
  obtain ⟨hd, hk, hw⟩ :=
    window_retargets_as_chain [blockZero, blockOne] ChainParams.testing blockOne hh
  exact ⟨by decide, hh, hk 3, hd, hw _ (hk 3)⟩

end WorkLedger
