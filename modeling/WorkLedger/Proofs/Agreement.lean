import WorkLedger.Proofs.Sync
import WorkLedger.Proofs.DecimalEquality

/-!
# Agreeing on a peer reply

`Consensus.select` counts the answers by comparing them with `==`: each answer joins the first
entry of the tally that compares equal to it, or opens a new one. Whether the verdict depends
only on which answers came, and not on their order or on the peers that had none, rests on `==`
being an equivalence among the answers (`Consensus.Coherent`). Then the tally holds one entry for
each class of equal answers, with the votes of the class (`Consensus.tallies_tally`); the leaders
are one answer of each class with the most votes (`Consensus.exists_leaders_beq_iff`); and the
verdict follows from the classes and their votes alone (`Consensus.select_cases`): unanimity
when all answers are equal, a plurality when one class leads, and otherwise a tie, broken among
the leaders that link onto the local chain when there are any.

Headers, blocks and compact blocks compare their difficulties as decimals. At one scale that is
equality (`Consensus.coherent_of_scale_eq`), but across scales it does not chain:
`7922816251677867879` with ten zeros appended, written with ten, nine and no zeros among its digits, gives a first
decimal equal to the second and a second equal to the third, with the first unequal to the
third. Replies in the order first, second, third find a plurality for the first; in the order
second, first, third they are unanimous.
-/

namespace WorkLedger

/-! ## Comparing headers, blocks and compact blocks -/

/-- At one scale, decimals compare equal exactly when their digits are equal. -/
theorem Decimal.beq_iff_eq_of_scale_eq {a b : Decimal} (h : a.scale = b.scale) :
    (a == b) = true ↔ a = b := by
  obtain ⟨u, s⟩ := a
  obtain ⟨u', s'⟩ := b
  dsimp only at h
  subst h
  show Decimal.sameValue _ _ = true ↔ _
  simp only [Decimal.sameValue, Decimal.mk.injEq, and_true, if_true]
  split_ifs with hz hsign
  · simp only [Bool.and_eq_true, decide_eq_true_eq] at hz
    simp [hz.1, hz.2]
  · simp only [bne_iff_ne, ne_eq] at hsign
    simp only [false_iff]
    rintro rfl
    exact hsign rfl
  · exact beq_iff_eq

namespace Header

/-- Headers compare equal field by field, the difficulty as a decimal. -/
theorem beq_eq_true_iff {a b : Header} : (a == b) = true ↔
    (a.fields.version = b.fields.version ∧ a.fields.chainName = b.fields.chainName ∧
      a.fields.blockNumber = b.fields.blockNumber ∧
      a.fields.previousHash = b.fields.previousHash ∧ a.fields.merkleRoot = b.fields.merkleRoot ∧
      a.fields.timestamp = b.fields.timestamp ∧
      (a.fields.difficulty == b.fields.difficulty) = true ∧
      a.fields.nonce = b.fields.nonce ∧ a.fields.minerSignature = b.fields.minerSignature) ∧
    a.hash = b.hash := by
  obtain ⟨⟨v, c, k, p, root, t, d, o, s⟩, hash⟩ := a
  obtain ⟨⟨v', c', k', p', root', t', d', o', s'⟩, hash'⟩ := b
  show instBEqHeader.beq _ _ = true ↔ _
  rw [instBEqHeader.beq.eq_1]
  show (instBEqHeaderFields.beq _ _ && _) = true ↔ _
  rw [instBEqHeaderFields.beq.eq_1]
  simp only [Bool.and_eq_true, beq_iff_eq]

theorem beq_self (h : Header) : (h == h) = true :=
  beq_eq_true_iff.2 ⟨⟨rfl, rfl, rfl, rfl, rfl, rfl, Decimal.beq_self _, rfl, rfl⟩, rfl⟩

/-- Comparing headers does not depend on which comes first. -/
theorem beq_comm (a b : Header) : (a == b) = (b == a) := by
  refine Bool.eq_iff_iff.2 ⟨fun h => ?_, fun h => ?_⟩ <;>
  · obtain ⟨⟨h1, h2, h3, h4, h5, h6, h7, h8, h9⟩, h10⟩ := beq_eq_true_iff.1 h
    exact beq_eq_true_iff.2 ⟨⟨h1.symm, h2.symm, h3.symm, h4.symm, h5.symm, h6.symm,
      by rwa [Decimal.beq_comm], h8.symm, h9.symm⟩, h10.symm⟩

theorem blockNumber_eq_of_beq {a b : Header} (h : (a == b) = true) :
    a.blockNumber = b.blockNumber :=
  (beq_eq_true_iff.1 h).1.2.2.1

theorem previousHash_eq_of_beq {a b : Header} (h : (a == b) = true) :
    a.previousHash = b.previousHash :=
  (beq_eq_true_iff.1 h).1.2.2.2.1

/-- Headers whose difficulties have one scale compare equal exactly when they are equal. -/
theorem beq_iff_eq_of_scale_eq {a b : Header}
    (h : a.fields.difficulty.scale = b.fields.difficulty.scale) : (a == b) = true ↔ a = b := by
  rw [beq_eq_true_iff, Decimal.beq_iff_eq_of_scale_eq h]
  obtain ⟨⟨v, c, k, p, root, t, d, o, s⟩, hash⟩ := a
  obtain ⟨⟨v', c', k', p', root', t', d', o', s'⟩, hash'⟩ := b
  simp only [Header.mk.injEq, HeaderFields.mk.injEq]

end Header

theorem Block.beq_eq_true_iff {a b : Block} :
    (a == b) = true ↔ (a.header == b.header) = true ∧ a.transactions = b.transactions := by
  obtain ⟨h, txs⟩ := a
  obtain ⟨h', txs'⟩ := b
  show instBEqBlock.beq _ _ = true ↔ _
  rw [instBEqBlock.beq.eq_1]
  simp only [Bool.and_eq_true, beq_iff_eq]

theorem CompactBlock.beq_eq_true_iff {a b : CompactBlock} :
    (a == b) = true ↔ (a.header == b.header) = true ∧ a.transaction = b.transaction ∧
      a.auditPath = b.auditPath := by
  obtain ⟨h, t, path⟩ := a
  obtain ⟨h', t', path'⟩ := b
  show instBEqCompactBlock.beq _ _ = true ↔ _
  rw [instBEqCompactBlock.beq.eq_1]
  simp only [Bool.and_eq_true, beq_iff_eq]

/-- Values that compare equal name the same height and the same parent, so they link onto the
local chain alike. -/
class LawfulLinked (α : Type) [BEq α] [Linked α] : Prop where
  number_eq : ∀ {a b : α}, (a == b) = true → Linked.number a = Linked.number b
  previous_eq : ∀ {a b : α}, (a == b) = true → Linked.previous a = Linked.previous b

instance : LawfulLinked Header where
  number_eq := Header.blockNumber_eq_of_beq
  previous_eq := Header.previousHash_eq_of_beq

instance : LawfulLinked Block where
  number_eq h := Header.blockNumber_eq_of_beq (Block.beq_eq_true_iff.1 h).1
  previous_eq h := Header.previousHash_eq_of_beq (Block.beq_eq_true_iff.1 h).1

instance : LawfulLinked CompactBlock where
  number_eq h := Header.blockNumber_eq_of_beq (CompactBlock.beq_eq_true_iff.1 h).1
  previous_eq h := Header.previousHash_eq_of_beq (CompactBlock.beq_eq_true_iff.1 h).1

namespace Consensus

variable {α : Type} [BEq α]

/-! ## Classes of equal answers -/

/-- Comparison is an equivalence among the values `xs`: each equals itself, equality goes both
ways, and it chains. -/
structure Coherent (xs : List α) : Prop where
  refl : ∀ a ∈ xs, (a == a) = true
  symm : ∀ a ∈ xs, ∀ b ∈ xs, (a == b) = true → (b == a) = true
  trans : ∀ a ∈ xs, ∀ b ∈ xs, ∀ c ∈ xs, (a == b) = true → (b == c) = true → (a == c) = true

theorem Coherent.perm {xs ys : List α} (hc : Coherent xs) (hp : ys.Perm xs) : Coherent ys where
  refl a ha := hc.refl a (hp.mem_iff.1 ha)
  symm a ha b hb := hc.symm a (hp.mem_iff.1 ha) b (hp.mem_iff.1 hb)
  trans a ha b hb c hc' := hc.trans a (hp.mem_iff.1 ha) b (hp.mem_iff.1 hb) c (hp.mem_iff.1 hc')

/-- Values among which comparison is equality are coherent. -/
theorem Coherent.of_beq_iff_eq {xs : List α} (h : ∀ a ∈ xs, ∀ b ∈ xs, (a == b) = true ↔ a = b) :
    Coherent xs where
  refl a ha := (h a ha a ha).2 rfl
  symm a ha b hb hab := (h b hb a ha).2 ((h a ha b hb).1 hab).symm
  trans a ha b hb c hc hab hbc :=
    (h a ha c hc).2 (((h a ha b hb).1 hab).trans ((h b hb c hc).1 hbc))

/-- Headers whose difficulties all have one scale are coherent. -/
theorem coherent_of_scale_eq {xs : List Header} (s : Int)
    (h : ∀ a ∈ xs, a.fields.difficulty.scale = s) : Coherent xs :=
  Coherent.of_beq_iff_eq fun a ha b hb =>
    Header.beq_iff_eq_of_scale_eq ((h a ha).trans (h b hb).symm)

/-- The votes for `v` among the answers: those that compare equal to it. -/
def votes (answers : List α) (v : α) : Nat := answers.countP (v == ·)

/-- `v` is an answer with as many votes as any answer. -/
def IsLeader (answers : List α) (v : α) : Prop :=
  v ∈ answers ∧ ∀ a ∈ answers, votes answers a ≤ votes answers v

/-- Equal values have the same votes among coherent answers. -/
theorem Coherent.votes_eq {answers : List α} (hc : Coherent answers) {a b : α}
    (ha : a ∈ answers) (hb : b ∈ answers) (hab : (a == b) = true) :
    votes answers a = votes answers b :=
  List.countP_congr fun x hx =>
    ⟨fun h => hc.trans b hb a ha x hx (hc.symm a ha b hb hab) h,
      fun h => hc.trans a ha b hb x hx hab h⟩

theorem votes_append_singleton (seen : List α) (a v : α) :
    votes (seen ++ [a]) v = votes seen v + if (v == a) = true then 1 else 0 := by
  simp only [votes, List.countP_append, List.countP_singleton]

theorem isLeader_perm {xs ys : List α} (hp : ys.Perm xs) (v : α) :
    IsLeader ys v ↔ IsLeader xs v := by
  simp only [IsLeader, votes, hp.mem_iff, hp.countP_eq]

/-- A value equal to a leader is a leader. -/
theorem Coherent.isLeader_of_beq {answers : List α} (hc : Coherent answers) {u v : α}
    (hv : IsLeader answers v) (hu : u ∈ answers) (hvu : (v == u) = true) :
    IsLeader answers u := by
  refine ⟨hu, fun a ha => ?_⟩
  rw [← hc.votes_eq hv.1 hu hvu]
  exact hv.2 a ha

/-! ## The tally -/

/-- What the tally of the answers `seen` so far records: one entry for each class of equal
answers, holding an answer of the class and the votes of the class. -/
structure Tallies (seen : List α) (acc : List (α × Nat)) : Prop where
  distinct : (acc.map (·.1)).Pairwise fun x y => (x == y) = false
  counted : ∀ e ∈ acc, e.1 ∈ seen ∧ e.2 = votes seen e.1
  covered : ∀ a ∈ seen, ∃ e ∈ acc, (e.1 == a) = true

theorem Tallies.nil : Tallies ([] : List α) [] := ⟨List.Pairwise.nil, nofun, nofun⟩

/-- A vote for an answer that no entry holds opens an entry at the end. -/
theorem vote_of_forall {a : α} {acc : List (α × Nat)} (h : ∀ e ∈ acc, (e.1 == a) = false) :
    vote a acc = acc ++ [(a, 1)] := by
  induction acc with
  | nil => rfl
  | cons e rest ih =>
    obtain ⟨v, n⟩ := e
    have hv : (v == a) = false := h (v, n) List.mem_cons_self
    simp only [vote, hv, Bool.false_eq_true, if_false, List.cons_append,
      ih fun e he => h e (List.mem_cons_of_mem _ he)]

/-- A vote goes to the first entry whose answer compares equal. -/
theorem vote_of_first {a v : α} {n : Nat} {pre post : List (α × Nat)}
    (hpre : ∀ e ∈ pre, (e.1 == a) = false) (hv : (v == a) = true) :
    vote a (pre ++ (v, n) :: post) = pre ++ (v, n + 1) :: post := by
  induction pre with
  | nil => simp only [List.nil_append, vote, hv, if_true]
  | cons e rest ih =>
    obtain ⟨w, m⟩ := e
    have hw : (w == a) = false := hpre (w, m) List.mem_cons_self
    simp only [List.cons_append, vote, hw, Bool.false_eq_true, if_false,
      ih fun e he => hpre e (List.mem_cons_of_mem _ he)]

section Step

variable {xs : List α} (hc : Coherent xs) {seen : List α} {acc : List (α × Nat)}
  (ht : Tallies seen acc) (hsub : seen ⊆ xs) {a : α} (ha : a ∈ xs)
include hc ht hsub ha

/-- An answer of a class the tally has no entry for opens one, with its single vote. -/
theorem Tallies.vote_fresh (hfresh : ∀ e ∈ acc, (e.1 == a) = false) :
    Tallies (seen ++ [a]) (acc ++ [(a, 1)]) := by
  have hnone : votes seen a = 0 := by
    refine List.countP_eq_zero.2 fun x hx hax => ?_
    obtain ⟨e, he, hex⟩ := ht.covered x hx
    have he' : e.1 ∈ xs := hsub (ht.counted e he).1
    have hea := hc.trans _ he' x (hsub hx) a ha hex (hc.symm a ha x (hsub hx) hax)
    rw [hfresh e he] at hea
    cases hea
  refine ⟨?_, fun e he => ?_, fun b hb => ?_⟩
  · rw [List.map_append, List.pairwise_append]
    refine ⟨ht.distinct, List.pairwise_singleton _ _, fun x hx y hy => ?_⟩
    obtain ⟨e, he, rfl⟩ := List.mem_map.1 hx
    obtain rfl : y = a := by simpa using hy
    exact hfresh e he
  · rcases List.mem_append.1 he with he | he
    · rw [votes_append_singleton, hfresh e he]
      exact ⟨List.mem_append_left _ (ht.counted e he).1, by simpa using (ht.counted e he).2⟩
    · rw [List.mem_singleton.1 he, votes_append_singleton, hnone, hc.refl a ha]
      exact ⟨List.mem_append_right _ List.mem_cons_self, rfl⟩
  · rcases List.mem_append.1 hb with hb | hb
    · obtain ⟨e, he, heb⟩ := ht.covered b hb
      exact ⟨e, List.mem_append_left _ he, heb⟩
    · rw [List.mem_singleton.1 hb]
      exact ⟨(a, 1), List.mem_append_right _ List.mem_cons_self, hc.refl a ha⟩

/-- An answer of a class with an entry adds its vote to that entry. -/
theorem Tallies.vote_known {pre post : List (α × Nat)} {e : α × Nat}
    (hacc : acc = pre ++ e :: post) (hea : (e.1 == a) = true)
    (hpre : ∀ x ∈ pre, (x.1 == a) = false) :
    Tallies (seen ++ [a]) (pre ++ (e.1, e.2 + 1) :: post) := by
  have hmem : ∀ x ∈ acc, x.1 ∈ xs := fun x hx => hsub (ht.counted x hx).1
  have he : e ∈ acc := hacc ▸ List.mem_append_right _ List.mem_cons_self
  -- the entries after `e` hold other classes than `e`'s, so other classes than `a`'s
  have hdist := ht.distinct
  rw [hacc, List.map_append, List.map_cons, List.pairwise_append, List.pairwise_cons] at hdist
  have hpost : ∀ x ∈ post, (x.1 == a) = false := fun x hx => by
    have hx' : x ∈ acc := hacc ▸ List.mem_append_right _ (List.mem_cons_of_mem _ hx)
    have hex : (e.1 == x.1) = false := hdist.2.1.1 x.1 (List.mem_map_of_mem hx)
    cases hxa : x.1 == a with
    | false => rfl
    | true =>
      rw [hc.trans _ (hmem e he) a ha x.1 (hmem x hx') hea (hc.symm _ (hmem x hx') a ha hxa)] at hex
      cases hex
  have hkeys : (pre ++ (e.1, e.2 + 1) :: post).map (·.1) = acc.map (·.1) := by
    simp [hacc]
  -- every entry but `e`'s keeps its votes, since `a` is not of its class
  have hold : ∀ y ∈ acc, (y.1 == a) = false →
      y.1 ∈ seen ++ [a] ∧ y.2 = votes (seen ++ [a]) y.1 := fun y hy hya => by
    rw [votes_append_singleton, hya]
    exact ⟨List.mem_append_left _ (ht.counted y hy).1, by simpa using (ht.counted y hy).2⟩
  refine ⟨hkeys ▸ ht.distinct, fun x hx => ?_, fun b hb => ?_⟩
  · rcases List.mem_append.1 hx with hx | hx
    · exact hold x (hacc ▸ List.mem_append_left _ hx) (hpre x hx)
    · rcases List.mem_cons.1 hx with rfl | hx
      · rw [votes_append_singleton, if_pos hea]
        exact ⟨List.mem_append_left _ (ht.counted e he).1, by rw [(ht.counted e he).2]⟩
      · exact hold x (hacc ▸ List.mem_append_right _ (List.mem_cons_of_mem _ hx)) (hpost x hx)
  · rcases List.mem_append.1 hb with hb | hb
    · obtain ⟨y, hy, hyb⟩ := ht.covered b hb
      obtain ⟨z, hz, hzy⟩ := List.mem_map.1 (hkeys ▸ List.mem_map_of_mem hy :
        y.1 ∈ (pre ++ (e.1, e.2 + 1) :: post).map (·.1))
      exact ⟨z, hz, hzy ▸ hyb⟩
    · rw [List.mem_singleton.1 hb]
      exact ⟨(e.1, e.2 + 1), List.mem_append_right _ List.mem_cons_self, hea⟩

/-- **One vote keeps the tally.** Counting one more of coherent answers keeps one entry per class
with the class's votes. -/
theorem Tallies.vote : Tallies (seen ++ [a]) (vote a acc) := by
  cases hf : acc.find? (·.1 == a) with
  | none =>
    have hfresh : ∀ e ∈ acc, (e.1 == a) = false := by
      simpa using List.find?_eq_none.1 hf
    rw [vote_of_forall hfresh]
    exact ht.vote_fresh hc hsub ha hfresh
  | some e =>
    obtain ⟨hea, pre, post, hacc, hpre⟩ := List.find?_eq_some_iff_append.1 hf
    have hpre' : ∀ x ∈ pre, (x.1 == a) = false := fun x hx => by simpa using hpre x hx
    rw [hacc, vote_of_first hpre' hea]
    exact ht.vote_known hc hsub ha hacc hea hpre'

end Step

/-- **The tally of coherent answers.** Counting the answers in turn leaves one entry per class of
equal answers, with the votes of the class; the induction runs over the answers still to count. -/
theorem tallies_foldl {xs : List α} (hc : Coherent xs) :
    ∀ (rest seen : List α) (acc : List (α × Nat)), Tallies seen acc → seen ⊆ xs → rest ⊆ xs →
      Tallies (seen ++ rest) (rest.foldl (fun acc a => vote a acc) acc)
  | [], seen, acc, ht, _, _ => by simpa using ht
  | a :: rest, seen, acc, ht, hseen, hrest => by
    have ha : a ∈ xs := hrest List.mem_cons_self
    have ht' := ht.vote hc hseen ha
    have hseen' : seen ++ [a] ⊆ xs :=
      List.append_subset.2 ⟨hseen, List.cons_subset.2 ⟨ha, List.nil_subset _⟩⟩
    simpa using tallies_foldl hc rest (seen ++ [a]) _ ht' hseen'
      fun x hx => hrest (List.mem_cons_of_mem a hx)

theorem tallies_tally {answers : List α} (hc : Coherent answers) :
    Tallies answers (tally answers) := by
  simpa [tally] using tallies_foldl hc answers [] [] Tallies.nil (List.nil_subset _)
    (List.Subset.refl _)

/-! ## The leaders -/

/-- The largest of a list of numbers, folded from `init`, is at least `init` and each of them. -/
theorem le_foldl_max : ∀ (l : List Nat) (init : Nat),
    init ≤ l.foldl max init ∧ ∀ x ∈ l, x ≤ l.foldl max init
  | [], init => ⟨le_rfl, by simp⟩
  | a :: l, init => by
    obtain ⟨hinit, hmem⟩ := le_foldl_max l (max init a)
    refine ⟨(le_max_left _ _).trans hinit, fun x hx => ?_⟩
    rcases List.mem_cons.1 hx with rfl | hx
    · exact (le_max_right _ _).trans hinit
    · exact hmem x hx

/-- The largest of a list of numbers folded from `init` is `init` or one of them. -/
theorem foldl_max_mem :
    ∀ (l : List Nat) (init : Nat), l.foldl max init = init ∨ l.foldl max init ∈ l
  | [], _ => .inl rfl
  | a :: l, init => by
    rcases foldl_max_mem l (max init a) with h | h
    · rw [List.foldl_cons, h]
      rcases max_choice init a with hm | hm
      · exact .inl hm
      · rw [hm]
        exact .inr List.mem_cons_self
    · exact .inr (List.mem_cons_of_mem a h)

/-- The most votes an entry of the tally has. -/
theorem top_eq {β : Type} (counts : List (β × Nat)) :
    counts.foldl (fun m e => max m e.2) 0 = (counts.map (·.2)).foldl max 0 := by
  rw [List.foldl_map]

theorem mem_leaders_iff {answers : List α} {v : α} :
    v ∈ leaders answers ↔ ∃ e ∈ tally answers,
      e.2 = (tally answers).foldl (fun m e => max m e.2) 0 ∧ e.1 = v := by
  simp only [leaders, List.mem_map, List.mem_filter, beq_iff_eq, and_assoc]

/-- No answer of coherent answers has more votes than the most voted entry. -/
theorem votes_le_top {answers : List α} (hc : Coherent answers) {a : α} (ha : a ∈ answers) :
    votes answers a ≤ (tally answers).foldl (fun m e => max m e.2) 0 := by
  have ht := tallies_tally hc
  obtain ⟨e, he, hea⟩ := ht.covered a ha
  have hcount := ht.counted e he
  rw [← hc.votes_eq hcount.1 ha hea, ← hcount.2, top_eq]
  exact (le_foldl_max _ 0).2 _ (List.mem_map_of_mem he)

/-- The most voted entry of the tally of coherent answers is an entry. -/
theorem exists_top {answers : List α} (hc : Coherent answers) (hne : answers ≠ []) :
    ∃ e ∈ tally answers, e.2 = (tally answers).foldl (fun m e => max m e.2) 0 := by
  obtain ⟨a, ha⟩ := List.exists_mem_of_ne_nil _ hne
  have hpos : 0 < votes answers a := List.countP_pos_iff.2 ⟨a, ha, hc.refl a ha⟩
  have hle := votes_le_top hc ha
  rw [top_eq] at hle ⊢
  rcases foldl_max_mem ((tally answers).map (·.2)) 0 with h | h
  · omega
  · obtain ⟨e, he, hev⟩ := List.mem_map.1 h
    exact ⟨e, he, hev⟩

/-- **The leaders of coherent answers** are answers with the most votes. -/
theorem isLeader_of_mem_leaders {answers : List α} (hc : Coherent answers) {v : α}
    (hv : v ∈ leaders answers) : IsLeader answers v := by
  obtain ⟨e, he, htop, rfl⟩ := mem_leaders_iff.1 hv
  have hcount := (tallies_tally hc).counted e he
  refine ⟨hcount.1, fun a ha => ?_⟩
  rw [← hcount.2, htop]
  exact votes_le_top hc ha

/-- Every answer with the most votes is equal to a leader. -/
theorem exists_leader_of_isLeader {answers : List α} (hc : Coherent answers) {u : α}
    (hu : IsLeader answers u) : ∃ v ∈ leaders answers, (v == u) = true := by
  have ht := tallies_tally hc
  obtain ⟨e, he, heu⟩ := ht.covered u hu.1
  have hcount := ht.counted e he
  obtain ⟨t, ht', htop⟩ := exists_top hc (List.ne_nil_of_mem hu.1)
  -- `e` has the votes of `u`: at least those of the top entry, and at most the top
  have hvotes : e.2 = votes answers u := by
    rw [hcount.2, hc.votes_eq hcount.1 hu.1 heu]
  have hge : (tally answers).foldl (fun m e => max m e.2) 0 ≤ e.2 := by
    rw [← htop, (ht.counted t ht').2, hvotes]
    exact hu.2 _ (ht.counted t ht').1
  have hle : e.2 ≤ (tally answers).foldl (fun m e => max m e.2) 0 := by
    rw [top_eq]
    exact (le_foldl_max _ 0).2 _ (List.mem_map_of_mem he)
  exact ⟨e.1, mem_leaders_iff.2 ⟨e, he, by omega, rfl⟩, heu⟩

/-- An answer's class has a leader exactly when the answer has the most votes. -/
theorem exists_leaders_beq_iff {answers : List α} (hc : Coherent answers) {u : α}
    (hu : u ∈ answers) : (∃ v ∈ leaders answers, (v == u) = true) ↔ IsLeader answers u :=
  ⟨fun ⟨_, hv, hvu⟩ => hc.isLeader_of_beq (isLeader_of_mem_leaders hc hv) hu hvu,
    exists_leader_of_isLeader hc⟩

/-- The leaders are of distinct classes. -/
theorem leaders_distinct {answers : List α} (hc : Coherent answers) :
    (leaders answers).Pairwise fun x y => (x == y) = false :=
  (tallies_tally hc).distinct.sublist (List.filter_sublist.map _)

theorem leaders_ne_nil {answers : List α} (hc : Coherent answers) (hne : answers ≠ []) :
    leaders answers ≠ [] := by
  obtain ⟨e, he, htop⟩ := exists_top hc hne
  exact List.ne_nil_of_mem (mem_leaders_iff.2 ⟨e, he, htop, rfl⟩)

/-! ## One leading class, or a tie -/

/-- All answers compare equal. -/
def AllEqual (answers : List α) : Prop := ∀ a ∈ answers, ∀ b ∈ answers, (a == b) = true

/-- Exactly one class of equal answers has the most votes. -/
def OneLeader (answers : List α) : Prop :=
  ∃ u, IsLeader answers u ∧ ∀ w, IsLeader answers w → (w == u) = true

/-- Two unequal answers have the most votes. -/
def Tie (answers : List α) : Prop :=
  ∃ u w, IsLeader answers u ∧ IsLeader answers w ∧ (u == w) = false

theorem allEqual_nil : AllEqual ([] : List α) := nofun

theorem ne_nil_of_not_allEqual {answers : List α} (h : ¬AllEqual answers) : answers ≠ [] :=
  fun hn => h (hn ▸ allEqual_nil)

theorem allEqual_perm {xs ys : List α} (hp : ys.Perm xs) : AllEqual ys ↔ AllEqual xs := by
  simp only [AllEqual, hp.mem_iff]

theorem tie_perm {xs ys : List α} (hp : ys.Perm xs) : Tie ys ↔ Tie xs := by
  simp only [Tie, isLeader_perm hp]

theorem oneLeader_perm {xs ys : List α} (hp : ys.Perm xs) : OneLeader ys ↔ OneLeader xs := by
  simp only [OneLeader, isLeader_perm hp]

theorem all_beq_iff {answers : List α} (hc : Coherent answers) {first : α}
    (hfirst : first ∈ answers) : answers.all (· == first) = true ↔ AllEqual answers := by
  rw [List.all_eq_true]
  refine ⟨fun h a ha b hb => ?_, fun h a ha => h a ha first hfirst⟩
  exact hc.trans a ha first hfirst b hb (h a ha) (hc.symm b hb first hfirst (h b hb))

/-- When all answers are equal, each has all the votes. -/
theorem isLeader_of_allEqual {answers : List α} (hall : AllEqual answers) {u : α}
    (hu : u ∈ answers) : IsLeader answers u := by
  have hlen : votes answers u = answers.length :=
    List.countP_eq_length.2 fun a ha => hall u hu a ha
  exact ⟨hu, fun a _ => hlen ▸ List.countP_le_length⟩

theorem not_tie_of_allEqual {answers : List α} (hall : AllEqual answers) : ¬Tie answers := by
  rintro ⟨u, w, hu, hw, huw⟩
  rw [hall u hu.1 w hw.1] at huw
  cases huw

theorem not_tie_of_oneLeader {answers : List α} (hc : Coherent answers)
    (hone : OneLeader answers) : ¬Tie answers := by
  obtain ⟨v, hv, hall⟩ := hone
  rintro ⟨u, w, hu, hw, huw⟩
  rw [hc.trans u hu.1 v hv.1 w hw.1 (hall u hu) (hc.symm w hw.1 v hv.1 (hall w hw))] at huw
  cases huw

/-- Two leaders at the front of the leaders are a tie. -/
theorem tie_of_leaders_eq {answers : List α} (hc : Coherent answers) {v w : α}
    {rest : List α} (h : leaders answers = v :: w :: rest) : Tie answers := by
  have hdist := leaders_distinct hc
  rw [h, List.pairwise_cons] at hdist
  have hv : v ∈ leaders answers := by rw [h]; exact List.mem_cons_self
  have hw : w ∈ leaders answers := by rw [h]; exact List.mem_cons_of_mem _ List.mem_cons_self
  exact ⟨v, w, isLeader_of_mem_leaders hc hv, isLeader_of_mem_leaders hc hw,
    hdist.1 w List.mem_cons_self⟩

/-- One leader is listed exactly when one class leads. -/
theorem leaders_eq_singleton_iff {answers : List α} (hc : Coherent answers) :
    (∃ only, leaders answers = [only]) ↔ OneLeader answers := by
  constructor
  · rintro ⟨only, honly⟩
    have hlead := isLeader_of_mem_leaders hc (honly ▸ List.mem_singleton_self only)
    refine ⟨only, hlead, fun w hw => ?_⟩
    obtain ⟨v, hv, hvw⟩ := exists_leader_of_isLeader hc hw
    rw [honly, List.mem_singleton] at hv
    exact hc.symm _ hlead.1 w hw.1 (hv ▸ hvw)
  · intro hone
    obtain ⟨v, rest, hl⟩ :=
      List.exists_cons_of_ne_nil (leaders_ne_nil hc (List.ne_nil_of_mem hone.choose_spec.1.1))
    cases rest with
    | nil => exact ⟨v, hl⟩
    | cons w rest => exact absurd (tie_of_leaders_eq hc hl) (not_tie_of_oneLeader hc hone)

/-- Answers that are not all equal have one leading class or a tie. -/
theorem tie_of_not_oneLeader {answers : List α} (hc : Coherent answers) (hne : answers ≠ [])
    (hone : ¬OneLeader answers) : Tie answers := by
  obtain ⟨v, rest, hl⟩ := List.exists_cons_of_ne_nil (leaders_ne_nil hc hne)
  cases rest with
  | nil => exact absurd ((leaders_eq_singleton_iff hc).1 ⟨v, hl⟩) hone
  | cons w rest => exact tie_of_leaders_eq hc hl

/-! ## Linking onto the local chain -/

variable [Linked α]

theorem linksLocally_of_beq [LawfulLinked α] (store : Store) {a b : α} (h : (a == b) = true) :
    linksLocally store a = linksLocally store b := by
  simp only [linksLocally, LawfulLinked.number_eq h, LawfulLinked.previous_eq h]

/-- No leader links exactly when no answer with the most votes links. -/
theorem filter_leaders_eq_nil_iff [LawfulLinked α] (store : Store) {answers : List α}
    (hc : Coherent answers) :
    (leaders answers).filter (linksLocally store) = [] ↔
      ∀ u, IsLeader answers u → linksLocally store u = false := by
  rw [List.filter_eq_nil_iff]
  constructor
  · intro h u hu
    obtain ⟨v, hv, hvu⟩ := exists_leader_of_isLeader hc hu
    rw [← linksLocally_of_beq store hvu]
    simpa using h v hv
  · intro h v hv
    simp [h v (isLeader_of_mem_leaders hc hv)]

/-! ## The verdict -/

section Verdict

variable (store : Store) {replies : List (Option α)} {answers : List α}
  (hans : replies.filterMap id = answers) (hc : Coherent answers)
include hans hc

/-- **The five verdicts.** Without answers nothing is found; answers all equal are unanimous for
the first; otherwise one leading class is a plurality, and a tie is broken among the leaders
that link onto the local chain, or among all leaders when none does. -/
theorem select_cases :
    (answers = [] ∧ select store replies = .notFound) ∨
    (∃ first ∈ answers, AllEqual answers ∧ select store replies = .unanimous first) ∨
    (¬AllEqual answers ∧ OneLeader answers ∧ ∃ only, leaders answers = [only] ∧
      select store replies = .plurality only) ∨
    (¬AllEqual answers ∧ Tie answers ∧ (leaders answers).filter (linksLocally store) ≠ [] ∧
      select store replies = .linkedTie ((leaders answers).filter (linksLocally store))) ∨
    (¬AllEqual answers ∧ Tie answers ∧ (leaders answers).filter (linksLocally store) = [] ∧
      select store replies = .openTie (leaders answers)) := by
  unfold select
  dsimp only
  rw [hans]
  cases answers with
  | nil => exact .inl ⟨rfl, rfl⟩
  | cons first rest =>
    dsimp only
    have hfirst : first ∈ first :: rest := List.mem_cons_self
    by_cases hall : (first :: rest).all (· == first) = true
    · rw [if_pos hall]
      exact .inr (.inl ⟨first, hfirst, (all_beq_iff hc hfirst).1 hall, rfl⟩)
    rw [if_neg hall]
    have hnot : ¬AllEqual (first :: rest) := fun h => hall ((all_beq_iff hc hfirst).2 h)
    refine .inr (.inr ?_)
    split
    · rename_i only hl
      exact .inl ⟨hnot, (leaders_eq_singleton_iff hc).1 ⟨only, hl⟩, only, hl, rfl⟩
    rename_i hl
    have htie : Tie (first :: rest) := tie_of_not_oneLeader hc (List.cons_ne_nil _ _)
      fun hone => by
        obtain ⟨only, honly⟩ := (leaders_eq_singleton_iff hc).2 hone
        exact hl only honly
    split
    · rename_i hnil
      exact .inr (.inr ⟨hnot, htie, hnil, rfl⟩)
    · rename_i hlink
      exact .inr (.inl ⟨hnot, htie, hlink, rfl⟩)

theorem select_eq_notFound_iff : select store replies = .notFound ↔ answers = [] := by
  rcases select_cases store hans hc with ⟨h, hs⟩ | ⟨first, hf, -, hs⟩ | ⟨hnot, -, _, -, hs⟩ |
    ⟨hnot, -, -, hs⟩ | ⟨hnot, -, -, hs⟩ <;> rw [hs]
  · exact ⟨fun _ => h, fun _ => rfl⟩
  · exact ⟨nofun, fun h => absurd (h ▸ hf) List.not_mem_nil⟩
  all_goals exact ⟨nofun, fun h => absurd h (ne_nil_of_not_allEqual hnot)⟩

theorem exists_select_eq_unanimous_iff :
    (∃ v, select store replies = .unanimous v) ↔ answers ≠ [] ∧ AllEqual answers := by
  rcases select_cases store hans hc with ⟨h, hs⟩ | ⟨first, hf, hall, hs⟩ | ⟨hnot, -, _, -, hs⟩ |
    ⟨hnot, -, -, hs⟩ | ⟨hnot, -, -, hs⟩ <;> rw [hs]
  · exact ⟨nofun, fun h' => absurd h h'.1⟩
  · exact ⟨fun _ => ⟨List.ne_nil_of_mem hf, hall⟩, fun _ => ⟨first, rfl⟩⟩
  all_goals exact ⟨nofun, fun h => absurd h.2 hnot⟩

theorem exists_select_eq_plurality_iff :
    (∃ v, select store replies = .plurality v) ↔ ¬AllEqual answers ∧ OneLeader answers := by
  rcases select_cases store hans hc with ⟨rfl, hs⟩ | ⟨_, -, hall, hs⟩ | ⟨hnot, hone, only, -, hs⟩ |
    ⟨-, htie, -, hs⟩ | ⟨-, htie, -, hs⟩ <;> rw [hs]
  · exact ⟨nofun, fun h => absurd allEqual_nil h.1⟩
  · exact ⟨nofun, fun h => absurd hall h.1⟩
  · exact ⟨fun _ => ⟨hnot, hone⟩, fun _ => ⟨only, rfl⟩⟩
  all_goals exact ⟨nofun, fun h => absurd htie (not_tie_of_oneLeader hc h.2)⟩

theorem exists_select_eq_linkedTie_iff [LawfulLinked α] :
    (∃ vs, select store replies = .linkedTie vs) ↔
      Tie answers ∧ ∃ u, IsLeader answers u ∧ linksLocally store u = true := by
  rcases select_cases store hans hc with ⟨rfl, hs⟩ | ⟨_, -, hall, hs⟩ | ⟨-, hone, _, -, hs⟩ |
    ⟨-, htie, hlink, hs⟩ | ⟨-, htie, hnil, hs⟩ <;> rw [hs]
  · exact ⟨nofun, fun h => absurd h.1 (not_tie_of_allEqual allEqual_nil)⟩
  · exact ⟨nofun, fun h => absurd h.1 (not_tie_of_allEqual hall)⟩
  · exact ⟨nofun, fun h => absurd h.1 (not_tie_of_oneLeader hc hone)⟩
  · obtain ⟨v, hv⟩ := List.exists_mem_of_ne_nil _ hlink
    obtain ⟨hlead, hlinks⟩ := List.mem_filter.1 hv
    exact ⟨fun _ => ⟨htie, v, isLeader_of_mem_leaders hc hlead, hlinks⟩, fun _ => ⟨_, rfl⟩⟩
  · have hno := (filter_leaders_eq_nil_iff store hc).1 hnil
    exact ⟨nofun, fun ⟨_, u, hu, hlinks⟩ => absurd hlinks (by simp [hno u hu])⟩

theorem exists_select_eq_openTie_iff [LawfulLinked α] :
    (∃ vs, select store replies = .openTie vs) ↔
      Tie answers ∧ ∀ u, IsLeader answers u → linksLocally store u = false := by
  rcases select_cases store hans hc with ⟨rfl, hs⟩ | ⟨_, -, hall, hs⟩ | ⟨-, hone, _, -, hs⟩ |
    ⟨-, htie, hlink, hs⟩ | ⟨-, htie, hnil, hs⟩ <;> rw [hs]
  · exact ⟨nofun, fun h => absurd h.1 (not_tie_of_allEqual allEqual_nil)⟩
  · exact ⟨nofun, fun h => absurd h.1 (not_tie_of_allEqual hall)⟩
  · exact ⟨nofun, fun h => absurd h.1 (not_tie_of_oneLeader hc hone)⟩
  · exact ⟨nofun, fun h => absurd ((filter_leaders_eq_nil_iff store hc).2 h.2) hlink⟩
  · exact ⟨fun _ => ⟨htie, (filter_leaders_eq_nil_iff store hc).1 hnil⟩, fun _ => ⟨_, rfl⟩⟩

/-- Unanimity is for a value equal to every answer. -/
theorem beq_of_select_eq_unanimous {v : α} (h : select store replies = .unanimous v) :
    ∀ a ∈ answers, (v == a) = true := by
  rcases select_cases store hans hc with ⟨-, hs⟩ | ⟨first, hf, hall, hs⟩ | ⟨-, -, _, -, hs⟩ |
    ⟨-, -, -, hs⟩ | ⟨-, -, -, hs⟩ <;> rw [hs] at h <;> cases h
  exact hall v hf

/-- The tie broken among linking leaders lists only values that link. -/
theorem linksLocally_of_select_eq_linkedTie {vs : List α}
    (h : select store replies = .linkedTie vs) : ∀ v ∈ vs, linksLocally store v = true := by
  rcases select_cases store hans hc with ⟨-, hs⟩ | ⟨_, -, -, hs⟩ | ⟨-, -, _, -, hs⟩ |
    ⟨-, -, -, hs⟩ | ⟨-, -, -, hs⟩ <;> rw [hs] at h <;> cases h
  exact fun v hv => (List.mem_filter.1 hv).2

/-- **The choices are leaders**, one of each class at most, and some answer is always chosen:
the draw after a tie always has a value to draw. -/
theorem choices_select :
    (∀ v ∈ (select store replies).choices, IsLeader answers v) ∧
    (select store replies).choices.Pairwise (fun x y => (x == y) = false) ∧
    (answers ≠ [] → (select store replies).choices ≠ []) := by
  rcases select_cases store hans hc with ⟨h, hs⟩ | ⟨first, hf, hall, hs⟩ | ⟨-, -, only, hl, hs⟩ |
    ⟨-, -, hlink, hs⟩ | ⟨hnot, -, -, hs⟩ <;> rw [hs] <;> simp only [Verdict.choices]
  · exact ⟨fun _ hv => absurd hv List.not_mem_nil, List.Pairwise.nil, fun hne => absurd h hne⟩
  · refine ⟨fun v hv => ?_, List.pairwise_singleton _ _, fun _ => List.cons_ne_nil _ _⟩
    rw [List.mem_singleton.1 hv]
    exact isLeader_of_allEqual hall hf
  · refine ⟨fun v hv => isLeader_of_mem_leaders hc ?_, List.pairwise_singleton _ _,
      fun _ => List.cons_ne_nil _ _⟩
    rw [hl]
    exact hv
  · exact ⟨fun v hv => isLeader_of_mem_leaders hc (List.mem_filter.1 hv).1,
      (leaders_distinct hc).filter _, fun _ => hlink⟩
  · exact ⟨fun v hv => isLeader_of_mem_leaders hc hv, leaders_distinct hc,
      fun hne => leaders_ne_nil hc hne⟩

/-- **The classes chosen.** An answer's class is among the choices exactly when it has the most
votes and, in a tie where some leader links onto the local chain, it links too. -/
theorem exists_choices_beq_iff [LawfulLinked α] {u : α} (hu : u ∈ answers) :
    (∃ v ∈ (select store replies).choices, (v == u) = true) ↔
      IsLeader answers u ∧
        (Tie answers → (∃ w, IsLeader answers w ∧ linksLocally store w = true) →
          linksLocally store u = true) := by
  rcases select_cases store hans hc with ⟨rfl, -⟩ | ⟨first, hf, hall, hs⟩ |
    ⟨-, hone, only, hl, hs⟩ | ⟨-, htie, hlink, hs⟩ | ⟨-, -, hnil, hs⟩
  · exact absurd hu List.not_mem_nil
  · rw [hs]
    simp only [Verdict.choices, List.mem_singleton, exists_eq_left]
    exact ⟨fun _ => ⟨isLeader_of_allEqual hall hu, fun h => absurd h (not_tie_of_allEqual hall)⟩,
      fun _ => hall first hf u hu⟩
  · rw [hs]
    simp only [Verdict.choices]
    rw [← hl, exists_leaders_beq_iff hc hu]
    exact ⟨fun h => ⟨h, fun ht => absurd ht (not_tie_of_oneLeader hc hone)⟩, And.left⟩
  · -- a leader links, so the classes chosen are the leading classes that link
    obtain ⟨w, hw⟩ := List.exists_mem_of_ne_nil _ hlink
    have hwl := List.mem_filter.1 hw
    have hlinked : ∃ w, IsLeader answers w ∧ linksLocally store w = true :=
      ⟨w, isLeader_of_mem_leaders hc hwl.1, hwl.2⟩
    rw [hs]
    simp only [Verdict.choices, List.mem_filter]
    constructor
    · rintro ⟨v, ⟨hv, hvl⟩, hvu⟩
      exact ⟨(exists_leaders_beq_iff hc hu).1 ⟨v, hv, hvu⟩,
        fun _ _ => (linksLocally_of_beq store hvu).symm.trans hvl⟩
    · rintro ⟨hlead, hlinks⟩
      obtain ⟨v, hv, hvu⟩ := exists_leader_of_isLeader hc hlead
      exact ⟨v, ⟨hv, (linksLocally_of_beq store hvu).trans (hlinks htie hlinked)⟩, hvu⟩
  · have hno := (filter_leaders_eq_nil_iff store hc).1 hnil
    rw [hs]
    simp only [Verdict.choices]
    rw [exists_leaders_beq_iff hc hu]
    refine ⟨fun h => ⟨h, fun _ hlinked => ?_⟩, And.left⟩
    obtain ⟨w, hw, hwl⟩ := hlinked
    exact absurd hwl (by simp [hno w hw])

/-- **The verdict follows the classes of answers.** Replies whose answers are a permutation of
these, with any number of peers without an answer, get a verdict of the same kind choosing the
same classes. -/
theorem select_perm [LawfulLinked α] {replies' : List (Option α)} {answers' : List α}
    (hans' : replies'.filterMap id = answers') (hp : answers'.Perm answers) :
    (select store replies').name = (select store replies).name ∧
    ∀ u ∈ answers, ((∃ v ∈ (select store replies').choices, (v == u) = true) ↔
      ∃ v ∈ (select store replies).choices, (v == u) = true) := by
  have hc' := hc.perm hp
  refine ⟨?_, fun u hu => ?_⟩
  · -- each kind of verdict is read off properties of the answers that a permutation keeps
    rcases select_cases store hans hc with ⟨rfl, hs⟩ | ⟨first, hf, hall, hs⟩ |
      ⟨hnot, hone, _, -, hs⟩ | ⟨-, -, -, hs⟩ | ⟨-, -, -, hs⟩
    · rw [hs, (select_eq_notFound_iff store hans' hc').2 (List.perm_nil.1 hp)]
    · obtain ⟨v, hv⟩ := (exists_select_eq_unanimous_iff store hans' hc').2
        ⟨List.ne_nil_of_mem (hp.mem_iff.2 hf), (allEqual_perm hp).2 hall⟩
      rw [hs, hv]
      rfl
    · obtain ⟨v, hv⟩ := (exists_select_eq_plurality_iff store hans' hc').2
        ⟨fun h => hnot ((allEqual_perm hp).1 h),
          (oneLeader_perm hp).2 hone⟩
      rw [hs, hv]
      rfl
    · obtain ⟨htie, u, hu, hlinks⟩ := (exists_select_eq_linkedTie_iff store hans hc).1 ⟨_, hs⟩
      obtain ⟨vs, hvs⟩ := (exists_select_eq_linkedTie_iff store hans' hc').2
        ⟨(tie_perm hp).2 htie, u, (isLeader_perm hp u).2 hu, hlinks⟩
      rw [hs, hvs]
      rfl
    · obtain ⟨htie, hno⟩ := (exists_select_eq_openTie_iff store hans hc).1 ⟨_, hs⟩
      obtain ⟨vs, hvs⟩ := (exists_select_eq_openTie_iff store hans' hc').2
        ⟨(tie_perm hp).2 htie, fun u hu => hno u ((isLeader_perm hp u).1 hu)⟩
      rw [hs, hvs]
      rfl
  · rw [exists_choices_beq_iff store hans' hc' (hp.mem_iff.2 hu),
      exists_choices_beq_iff store hans hc hu]
    simp only [isLeader_perm hp, tie_perm hp]

end Verdict

/-- **A verdict by the votes.** Among replies whose answers compare as an equivalence, nothing is
found exactly when no peer answered; the answers are unanimous exactly when all are equal, for a
value equal to each; a plurality exactly when they are not all equal and one class has the most
votes; a tie broken among linking leaders exactly when unequal answers share the most votes and
one of them links onto the local chain, and then every value drawn from links; and a tie left to
chance exactly when they share it and none links. Whatever the verdict, its choices are answers
with the most votes, one of each class, and some answer is chosen whenever one came; the classes
chosen are the leading classes, narrowed to those that link in a tie where one does. Reordering
the answers and adding or dropping peers without one changes neither the kind of verdict nor the
classes it chooses. -/
theorem select_follows_votes [LawfulLinked α] (store : Store) (replies : List (Option α))
    (hc : Coherent (replies.filterMap id)) :
    let answers := replies.filterMap id
    (select store replies = .notFound ↔ ∀ r ∈ replies, r = none) ∧
    ((∃ v, select store replies = .unanimous v) ↔ answers ≠ [] ∧ AllEqual answers) ∧
    (∀ v, select store replies = .unanimous v → ∀ a ∈ answers, (v == a) = true) ∧
    ((∃ v, select store replies = .plurality v) ↔ ¬AllEqual answers ∧ OneLeader answers) ∧
    ((∃ vs, select store replies = .linkedTie vs) ↔
      Tie answers ∧ ∃ u, IsLeader answers u ∧ linksLocally store u = true) ∧
    (∀ vs, select store replies = .linkedTie vs → ∀ v ∈ vs, linksLocally store v = true) ∧
    ((∃ vs, select store replies = .openTie vs) ↔
      Tie answers ∧ ∀ u, IsLeader answers u → linksLocally store u = false) ∧
    (∀ v ∈ (select store replies).choices, IsLeader answers v) ∧
    (select store replies).choices.Pairwise (fun x y => (x == y) = false) ∧
    (answers ≠ [] → (select store replies).choices ≠ []) ∧
    (∀ u ∈ answers, ((∃ v ∈ (select store replies).choices, (v == u) = true) ↔
      IsLeader answers u ∧
        (Tie answers → (∃ w, IsLeader answers w ∧ linksLocally store w = true) →
          linksLocally store u = true))) ∧
    ∀ replies' : List (Option α), (replies'.filterMap id).Perm answers →
      (select store replies').name = (select store replies).name ∧
      ∀ u ∈ answers, ((∃ v ∈ (select store replies').choices, (v == u) = true) ↔
        ∃ v ∈ (select store replies).choices, (v == u) = true) := by
  intro answers
  have hans : replies.filterMap id = answers := rfl
  obtain ⟨hchosen, hdistinct, hsome⟩ := choices_select store hans hc
  refine ⟨?_, exists_select_eq_unanimous_iff store hans hc,
    fun _ h => beq_of_select_eq_unanimous store hans hc h,
    exists_select_eq_plurality_iff store hans hc, exists_select_eq_linkedTie_iff store hans hc,
    fun _ h => linksLocally_of_select_eq_linkedTie store hans hc h,
    exists_select_eq_openTie_iff store hans hc, hchosen, hdistinct, hsome,
    fun _ hu => exists_choices_beq_iff store hans hc hu,
    fun _ hp => select_perm store hans hc rfl hp⟩
  rw [select_eq_notFound_iff store hans hc, ← hans, List.filterMap_eq_nil_iff]
  rfl

end Consensus

/-- A header with its fields at their defaults but for the difficulty. -/
def Header.withDifficulty (d : Decimal) : Header :=
  ⟨{ (default : HeaderFields) with difficulty := d }, default⟩

/-- Such headers compare as their difficulties do. -/
theorem Header.withDifficulty_beq (d d' : Decimal) :
    (Header.withDifficulty d == Header.withDifficulty d') = (d == d') := by
  rw [Bool.eq_iff_iff, Header.beq_eq_true_iff]
  simp [Header.withDifficulty]

namespace Consensus

/-- **The order of the replies can change the verdict.** `7922816251677867879` with ten zeros
appended, written with ten, nine and no zeros among its digits, compares equal from the first
spelling to the second and from the second to the third, but not from the first to the third: the
last comparison walks words whose sums pass `2^64`. Replies in the order first, second, third
find the first and second in one class and the third alone, a plurality; replies in the order
second, first, third find all three equal to the second, unanimous. -/
theorem reply_order_changes_verdict :
    let x := Header.withDifficulty ⟨7922816251677867879, -10⟩
    let y := Header.withDifficulty ⟨79228162516778678790, -9⟩
    let z := Header.withDifficulty ⟨79228162516778678790000000000, 0⟩
    (x == y) = true ∧ (y == z) = true ∧ (x == z) = false ∧
    select Store.empty [some x, some y, some z] = .plurality x ∧
    select Store.empty [some y, some x, some z] = .unanimous y := by
  intro x y z
  have hx : Nat.log2 7922816251677867879 = 62 :=
    (Nat.log2_eq_iff (by decide)).2 ⟨by decide, by decide⟩
  have hy : Nat.log2 79228162516778678790 = 66 :=
    (Nat.log2_eq_iff (by decide)).2 ⟨by decide, by decide⟩
  have hz : Nat.log2 79228162516778678790000000000 = 96 :=
    (Nat.log2_eq_iff (by decide)).2 ⟨by decide, by decide⟩
  have hten : Nat.log2 10 = 3 := by decide
  have hbillion : Nat.log2 1000000000 = 29 :=
    (Nat.log2_eq_iff (by decide)).2 ⟨by decide, by decide⟩
  -- the three comparisons, each a walk over 32-bit words
  have hxy : (x == y) = true ∧ (y == z) = true ∧ (x == z) = false := by
    simp only [x, y, z, Header.withDifficulty_beq]
    refine ⟨?_, ?_, ?_⟩ <;> show Decimal.sameValue _ _ = _ <;>
      simp [Decimal.sameValue, Decimal.scaledEqual, Decimal.tooShortForScaled, Decimal.bitLength,
        Decimal.words, Decimal.scaledWordsMatch, Decimal.wordBase, Decimal.wideBase, hx, hy, hz,
        hten, hbillion] <;> decide
  obtain ⟨hxy, hyz, hxz⟩ := hxy
  have hyx : (y == x) = true := by rw [Header.beq_comm, hxy]
  have hzy : (z == y) = true := by rw [Header.beq_comm, hyz]
  have hzx : (z == x) = false := by rw [Header.beq_comm, hxz]
  refine ⟨hxy, hyz, hxz, ?_, ?_⟩
  · simp [select, leaders, tally, vote, Header.beq_self, hxy, hxz, hyx, hzx]
  · simp [select, Header.beq_self, hzy, hxy]

/-- Two peers answer with one header, one with another and one has no answer. -/
def twoToOne : List (Option Header) :=
  [some (Header.withDifficulty ⟨1, 0⟩), none, some (Header.withDifficulty ⟨2, 0⟩),
    some (Header.withDifficulty ⟨1, 0⟩)]

/-- The replies are coherent, the verdict is a plurality for the header two peers sent, and it
follows the votes. -/
theorem select_follows_votes_two_to_one :
    Coherent (twoToOne.filterMap id) ∧
    select Store.empty twoToOne = .plurality (Header.withDifficulty ⟨1, 0⟩) ∧
    let answers := twoToOne.filterMap id
    (select Store.empty twoToOne = .notFound ↔ ∀ r ∈ twoToOne, r = none) ∧
    ((∃ v, select Store.empty twoToOne = .unanimous v) ↔ answers ≠ [] ∧ AllEqual answers) ∧
    (∀ v, select Store.empty twoToOne = .unanimous v → ∀ a ∈ answers, (v == a) = true) ∧
    ((∃ v, select Store.empty twoToOne = .plurality v) ↔ ¬AllEqual answers ∧ OneLeader answers) ∧
    ((∃ vs, select Store.empty twoToOne = .linkedTie vs) ↔
      Tie answers ∧ ∃ u, IsLeader answers u ∧ linksLocally Store.empty u = true) ∧
    (∀ vs, select Store.empty twoToOne = .linkedTie vs →
      ∀ v ∈ vs, linksLocally Store.empty v = true) ∧
    ((∃ vs, select Store.empty twoToOne = .openTie vs) ↔
      Tie answers ∧ ∀ u, IsLeader answers u → linksLocally Store.empty u = false) ∧
    (∀ v ∈ (select Store.empty twoToOne).choices, IsLeader answers v) ∧
    (select Store.empty twoToOne).choices.Pairwise (fun x y => (x == y) = false) ∧
    (answers ≠ [] → (select Store.empty twoToOne).choices ≠ []) ∧
    (∀ u ∈ answers, ((∃ v ∈ (select Store.empty twoToOne).choices, (v == u) = true) ↔
      IsLeader answers u ∧
        (Tie answers → (∃ w, IsLeader answers w ∧ linksLocally Store.empty w = true) →
          linksLocally Store.empty u = true))) ∧
    ∀ replies' : List (Option Header), (replies'.filterMap id).Perm answers →
      (select Store.empty replies').name = (select Store.empty twoToOne).name ∧
      ∀ u ∈ answers, ((∃ v ∈ (select Store.empty replies').choices, (v == u) = true) ↔
        ∃ v ∈ (select Store.empty twoToOne).choices, (v == u) = true) := by
  have hc : Coherent (twoToOne.filterMap id) :=
    coherent_of_scale_eq 0 (by simp [twoToOne, Header.withDifficulty])
  have h12 : (Header.withDifficulty ⟨1, 0⟩ == Header.withDifficulty ⟨2, 0⟩) = false := by
    rw [Header.withDifficulty_beq]
    rfl
  have h21 : (Header.withDifficulty ⟨2, 0⟩ == Header.withDifficulty ⟨1, 0⟩) = false := by
    rw [Header.beq_comm, h12]
  refine ⟨hc, ?_, select_follows_votes Store.empty twoToOne hc⟩
  simp [twoToOne, select, leaders, tally, vote, Header.beq_self, h12, h21]

end Consensus

end WorkLedger
