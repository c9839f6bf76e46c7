import WorkLedger.Proofs.Accept
import WorkLedger.Proofs.Sync

/-!
# The pool of pending transactions

A node's pool keeps one entry per transaction hash, in ascending order of hash bytes. The pool
changes in two ways only: a submitted transaction is inserted at its place, unless it is the
placeholder (refused) or its hash is pending already (reported, nothing changes); and a block
the node takes removes the hashes of its transactions, the placeholder apart. A block the node
refuses leaves the pool alone.

`Pool.Inv` is what every pool reached this way satisfies: each entry is keyed by the hash of its
transaction, no entry holds the placeholder, and the keys rise strictly. It holds of the empty
pool and each call keeps it (`Pool.Inv.perform`), so it holds after every sequence of calls
(`Pool.Inv.performAll`). Since the keys rise strictly, the pending list is fixed by the set of
pending transactions (`Pool.Inv.pending_eq`): the order the transactions arrived in leaves no
trace in it, nor in the Merkle root a miner builds over it.
-/

namespace WorkLedger

/-! ## Hash order -/

namespace Digest

theorem lexCompare_eq_eq_iff {a b : Digest} : lexCompare a b = .eq ↔ a = b := by
  rw [lexCompare, Std.LawfulEqCmp.compare_eq_iff_eq, Digest.mk.injEq]

theorem lexCompare_gt_iff {a b : Digest} : lexCompare a b = .gt ↔ lexCompare b a = .lt := by
  unfold lexCompare
  exact Std.OrientedCmp.gt_iff_lt

theorem lexCompare_lt_trans {a b c : Digest} (hab : lexCompare a b = .lt)
    (hbc : lexCompare b c = .lt) : lexCompare a c = .lt := by
  unfold lexCompare at *
  exact Std.TransCmp.lt_trans hab hbc

theorem lexCompare_lt_asymm {a b : Digest} (hab : lexCompare a b = .lt) :
    lexCompare b a ≠ .lt := by
  intro hba
  rw [← lexCompare_gt_iff, hab] at hba
  cases hba

/-- Two different digests are ordered one way or the other. -/
theorem lexCompare_lt_of_not_gt {a b : Digest} (hne : a ≠ b) (hgt : lexCompare a b ≠ .gt) :
    lexCompare a b = .lt := by
  cases h : lexCompare a b with
  | lt => rfl
  | eq => exact absurd (lexCompare_eq_eq_iff.1 h) hne
  | gt => exact absurd h hgt

end Digest

/-! ## Inserting and removing entries -/

namespace Pool

/-- Entries whose keys rise strictly. -/
def Ascending (l : List (Digest × Transaction)) : Prop :=
  l.Pairwise fun a b => Digest.lexCompare a.1 b.1 = .lt

theorem perm_insertByHash (e : Digest × Transaction) (l : List (Digest × Transaction)) :
    (insertByHash e l).Perm (e :: l) := by
  induction l with
  | nil => exact List.Perm.refl _
  | cons x xs ih =>
    simp only [insertByHash]
    split
    · exact (ih.cons x).trans (List.Perm.swap e x xs)
    · exact List.Perm.refl _

/-- Inserting an entry with a new key keeps the keys rising. -/
theorem Ascending.insertByHash {l : List (Digest × Transaction)} (hl : Ascending l)
    {e : Digest × Transaction} (hnew : ∀ x ∈ l, x.1 ≠ e.1) : Ascending (insertByHash e l) := by
  induction l with
  | nil => exact List.pairwise_singleton _ _
  | cons x xs ih =>
    rw [Ascending, List.pairwise_cons] at hl
    have ih' := ih hl.2 fun y hy => hnew y (List.mem_cons_of_mem x hy)
    simp only [Pool.insertByHash]
    split
    · -- the new key is above `x`: it goes further in
      next hgt =>
      refine List.pairwise_cons.2 ⟨fun y hy => ?_, ih'⟩
      rcases List.mem_cons.1 ((perm_insertByHash e xs).mem_iff.1 hy) with rfl | hy
      · exact Digest.lexCompare_gt_iff.1 (beq_iff_eq.1 hgt)
      · exact hl.1 y hy
    · -- the new key is below `x`, hence below all of `x :: xs`
      next hngt =>
      have hlt : Digest.lexCompare e.1 x.1 = .lt :=
        Digest.lexCompare_lt_of_not_gt (hnew x List.mem_cons_self).symm
          fun h => hngt (beq_iff_eq.2 h)
      refine List.pairwise_cons.2 ⟨fun y hy => ?_, List.pairwise_cons.2 hl⟩
      rcases List.mem_cons.1 hy with rfl | hy
      · exact hlt
      · exact Digest.lexCompare_lt_trans hlt (hl.1 y hy)

theorem contains_eq_true_iff {p : Pool} {h : Digest} :
    p.contains h = true ↔ ∃ e ∈ p.entries, e.1 = h := by
  simp [contains]

/-- Pruning removes exactly the entries keyed by the hash of a transaction of the block other
than the placeholder, and keeps the others in order. -/
theorem entries_prune (p : Pool) (included : List Transaction) :
    (p.prune included).entries = p.entries.filter fun e =>
      e.1 ∉ (included.filter (!·.isPlaceholder)).map Transaction.hash := by
  rw [prune]
  -- the removals run over the transactions kept, whatever pool they start from
  induction included.filter (!·.isPlaceholder) generalizing p with
  | nil => simp
  | cons t ts ih =>
    rw [List.foldl_cons, ih, remove, List.filter_filter]
    refine List.filter_congr fun e _ => ?_
    by_cases he : e.1 = t.hash <;> simp [he]

/-! ## The invariant -/

/-- What every pool reached by submissions and accepted blocks satisfies. -/
structure Inv (p : Pool) : Prop where
  ascending : Ascending p.entries
  keyed : ∀ e ∈ p.entries, e.1 = e.2.hash
  real : ∀ e ∈ p.entries, e.2.isPlaceholder = false

theorem Inv.empty : Pool.empty.Inv := ⟨List.Pairwise.nil, nofun, nofun⟩

/-- What a submission does: the placeholder is refused; a transaction whose hash is pending is
reported as known, the pool unchanged; any other is inserted at the place of its hash. -/
theorem add_cases (p : Pool) (t : Transaction) :
    (t.isPlaceholder = true ∧ p.add t = .error .placeholder) ∨
    (t.isPlaceholder = false ∧ (∃ e ∈ p.entries, e.1 = t.hash) ∧ p.add t = .ok (false, p)) ∨
    (t.isPlaceholder = false ∧ (∀ e ∈ p.entries, e.1 ≠ t.hash) ∧
      p.add t = .ok (true, ⟨insertByHash (t.hash, t) p.entries⟩)) := by
  cases ht : t.isPlaceholder with
  | true => exact .inl ⟨rfl, by rw [add, if_pos ht]⟩
  | false =>
    have hreal : ¬t.isPlaceholder = true := by rw [ht]; decide
    by_cases hc : ∃ e ∈ p.entries, e.1 = t.hash
    · refine .inr (.inl ⟨rfl, hc, ?_⟩)
      rw [add, if_neg hreal, if_pos (contains_eq_true_iff.2 hc)]
    · refine .inr (.inr ⟨rfl, fun e he hk => hc ⟨e, he, hk⟩, ?_⟩)
      rw [add, if_neg hreal, if_neg fun h => hc (contains_eq_true_iff.1 h)]

/-- A submission is refused exactly for the placeholder. -/
theorem add_eq_error_iff {p : Pool} {t : Transaction} :
    (∃ e, p.add t = .error e) ↔ t.isPlaceholder = true := by
  rcases add_cases p t with ⟨hreal, hadd⟩ | ⟨hreal, -, hadd⟩ | ⟨hreal, -, hadd⟩
  · exact iff_of_true ⟨_, hadd⟩ hreal
  all_goals simp [hreal, hadd]

/-- A submission is reported as known, and the pool left as it was, exactly when it is not the
placeholder and a transaction with its hash is pending. -/
theorem add_eq_known_iff {p p' : Pool} {t : Transaction} :
    p.add t = .ok (false, p') ↔
      t.isPlaceholder = false ∧ (∃ e ∈ p.entries, e.1 = t.hash) ∧ p' = p := by
  rcases add_cases p t with ⟨hreal, hadd⟩ | ⟨hreal, hknown, hadd⟩ | ⟨hreal, hfresh, hadd⟩
  · simp [hreal, hadd]
  · rw [hadd]
    constructor
    · rintro ⟨⟩
      exact ⟨hreal, hknown, rfl⟩
    · rintro ⟨-, -, rfl⟩
      rfl
  · rw [hadd]
    refine iff_of_false (fun h => by cases h) fun ⟨_, ⟨e, he, hk⟩, _⟩ => hfresh e he hk

/-- A submission is taken exactly when it is not the placeholder and no transaction with its
hash is pending; the entries are then those before and the new one. -/
theorem add_eq_new_iff {p p' : Pool} {t : Transaction} :
    p.add t = .ok (true, p') ↔
      t.isPlaceholder = false ∧ (∀ e ∈ p.entries, e.1 ≠ t.hash) ∧
        p'.entries = insertByHash (t.hash, t) p.entries := by
  rcases add_cases p t with ⟨hreal, hadd⟩ | ⟨hreal, ⟨e, he, hk⟩, hadd⟩ | ⟨hreal, hfresh, hadd⟩
  · simp [hreal, hadd]
  · rw [hadd]
    exact iff_of_false (fun h => by cases h) fun ⟨_, hfresh, _⟩ => hfresh e he hk
  · rw [hadd]
    constructor
    · rintro ⟨⟩
      exact ⟨hreal, hfresh, rfl⟩
    · obtain ⟨entries⟩ := p'
      rintro ⟨-, -, rfl⟩
      rfl

/-- Taking a submission keeps the invariant. -/
theorem Inv.add {p p' : Pool} (hp : p.Inv) {t : Transaction} {added : Bool}
    (h : p.add t = .ok (added, p')) : p'.Inv := by
  cases added with
  | false =>
    obtain ⟨-, -, rfl⟩ := add_eq_known_iff.1 h
    exact hp
  | true =>
    obtain ⟨hreal, hfresh, hentries⟩ := add_eq_new_iff.1 h
    have hmem : ∀ e, e ∈ p'.entries ↔ e = (t.hash, t) ∨ e ∈ p.entries := fun e => by
      rw [hentries, (perm_insertByHash _ _).mem_iff, List.mem_cons]
    refine ⟨hentries ▸ hp.ascending.insertByHash hfresh, fun e he => ?_, fun e he => ?_⟩
    · rcases (hmem e).1 he with rfl | he
      · rfl
      · exact hp.keyed e he
    · rcases (hmem e).1 he with rfl | he
      · exact hreal
      · exact hp.real e he

/-- Pruning keeps the invariant: it only takes entries out. -/
theorem Inv.prune {p : Pool} (hp : p.Inv) (included : List Transaction) :
    (p.prune included).Inv := by
  have hsub : ∀ e ∈ (p.prune included).entries, e ∈ p.entries := fun e he => by
    rw [entries_prune] at he
    exact List.mem_of_mem_filter he
  refine ⟨?_, fun e he => hp.keyed e (hsub e he), fun e he => hp.real e (hsub e he)⟩
  rw [entries_prune]
  exact hp.ascending.filter _

/-- A pooled transaction is pending exactly once its entry is pooled. -/
theorem Inv.mem_pending_iff {p : Pool} (hp : p.Inv) (t : Transaction) :
    t ∈ p.pending ↔ (t.hash, t) ∈ p.entries := by
  rw [pending, List.mem_map]
  constructor
  · rintro ⟨e, he, rfl⟩
    rwa [← hp.keyed e he]
  · exact fun he => ⟨_, he, rfl⟩

/-- The pending transactions come in strictly rising hash order. -/
theorem Inv.ascending_pending {p : Pool} (hp : p.Inv) :
    (p.pending.map Transaction.hash).Pairwise fun a b => Digest.lexCompare a b = .lt := by
  rw [pending, List.map_map, List.pairwise_map]
  refine hp.ascending.imp_of_mem fun {a b} ha hb hab => ?_
  simpa only [Function.comp_apply, ← hp.keyed a ha, ← hp.keyed b hb] using hab

theorem Inv.nodup_pending {p : Pool} (hp : p.Inv) : p.pending.Nodup := by
  refine List.Nodup.of_map Transaction.hash ?_
  exact hp.ascending_pending.imp fun {a b} hab heq => by
    rw [heq, Digest.lexCompare_eq_eq_iff.2 rfl] at hab
    cases hab

/-- **The pending list depends only on the set of pending transactions.** -/
theorem Inv.pending_eq {p q : Pool} (hp : p.Inv) (hq : q.Inv)
    (hmem : ∀ t, t ∈ p.pending ↔ t ∈ q.pending) : p.pending = q.pending := by
  have hperm : p.pending.Perm q.pending :=
    (List.perm_ext_iff_of_nodup hp.nodup_pending hq.nodup_pending).2 hmem
  -- both lists rise strictly by hash, so the permutation between them is the identity
  have hrise : ∀ r : Pool, r.Inv →
      r.pending.Pairwise fun a b => Digest.lexCompare a.hash b.hash = .lt :=
    fun r hr => by simpa only [List.pairwise_map] using hr.ascending_pending
  refine hperm.eq_of_pairwise ?_ (hrise p hp) (hrise q hq)
  exact fun a b _ _ hab hba => absurd hba (Digest.lexCompare_lt_asymm hab)

end Pool

/-! ## Calls on a node -/

/-- A call that can change a node's pool: a transaction submitted, or a block offered with the
clock rule on or off and the local time. -/
inductive PoolCall where
  | submit (t : Transaction)
  | offer (b : Block) (checkTime : Bool) (now : Int64)

namespace Node

/-- The node after a call; a call that fails leaves the node as it was. -/
def perform (n : Node) : PoolCall → Node
  | .submit t =>
    match n.addTransaction t with
    | .ok r => r.2
    | .error _ => n
  | .offer b checkTime now =>
    match n.acceptBlock b checkTime now with
    | .ok n' => n'
    | .error _ => n

/-- The node after calls one after another. -/
def performAll (n : Node) (calls : List PoolCall) : Node := calls.foldl perform n

theorem addTransaction_eq (n : Node) (t : Transaction) :
    n.addTransaction t = (n.pool.add t).map fun r => (r.1, { n with pool := r.2 }) := by
  simp only [addTransaction]
  cases n.pool.add t <;> rfl

/-- A submission to the node is its pool's submission; only the pool changes. -/
theorem addTransaction_eq_ok_iff {n n' : Node} {t : Transaction} {added : Bool} :
    n.addTransaction t = .ok (added, n') ↔
      n.pool.add t = .ok (added, n'.pool) ∧ n' = { n with pool := n'.pool } := by
  rw [addTransaction_eq]
  cases h : n.pool.add t with
  | error e => simp [Except.map]
  | ok r =>
    obtain ⟨b, q⟩ := r
    simp only [Except.map, Except.ok.injEq, Prod.mk.injEq]
    constructor
    · rintro ⟨rfl, rfl⟩
      exact ⟨⟨rfl, rfl⟩, rfl⟩
    · rintro ⟨⟨rfl, rfl⟩, hn'⟩
      exact ⟨rfl, hn'.symm⟩

/-- A submission changes the pool alone, whether the node takes it or not. -/
theorem perform_submit (n : Node) (t : Transaction) :
    ∃ q, n.perform (.submit t) = { n with pool := q } := by
  simp only [perform]
  split
  · next r h => exact ⟨r.2.pool, (addTransaction_eq_ok_iff.1 h).2⟩
  · exact ⟨n.pool, rfl⟩

/-- An offered block the node takes is taken. -/
theorem perform_offer_of_ok {n n' : Node} {b : Block} {checkTime : Bool} {now : Int64}
    (h : n.acceptBlock b checkTime now = .ok n') : n.perform (.offer b checkTime now) = n' := by
  simp only [perform, h]

/-- Submissions change the pool alone. -/
theorem performAll_submit (n : Node) (ts : List Transaction) :
    ∃ q, n.performAll (ts.map .submit) = { n with pool := q } := by
  induction ts generalizing n with
  | nil => exact ⟨n.pool, rfl⟩
  | cons t ts ih =>
    obtain ⟨q, hq⟩ := perform_submit n t
    obtain ⟨q', hq'⟩ := ih { n with pool := q }
    refine ⟨q', ?_⟩
    rw [List.map_cons, performAll, List.foldl_cons, hq, ← performAll, hq']

/-- A block the node takes prunes the pool by its transactions. -/
theorem pool_of_acceptBlock {n n' : Node} {b : Block} {checkTime : Bool} {now : Int64}
    (h : n.acceptBlock b checkTime now = .ok n') : n'.pool = n.pool.prune b.transactions := by
  obtain ⟨-, -, -, -, -, rfl⟩ := acceptBlock_eq_ok_iff.1 h
  rfl

end Node

namespace Pool

theorem Inv.perform {n : Node} (hn : n.pool.Inv) (c : PoolCall) : (n.perform c).pool.Inv := by
  cases c with
  | submit t =>
    simp only [Node.perform]
    split
    · next r h =>
      exact hn.add (Node.addTransaction_eq_ok_iff.1 h).1
    · exact hn
  | offer b checkTime now =>
    simp only [Node.perform]
    split
    · next n' h =>
      rw [Node.pool_of_acceptBlock h]
      exact hn.prune _
    · exact hn

/-- **The invariant along every run.** -/
theorem Inv.performAll {n : Node} (hn : n.pool.Inv) (calls : List PoolCall) :
    (n.performAll calls).pool.Inv := by
  induction calls generalizing n with
  | nil => exact hn
  | cons c rest ih => exact ih (hn.perform c)

end Pool

/-- **A node's pool keeps one transaction per hash, in hash order.** After any sequence of
submissions and offered blocks from a node whose pool satisfies the invariant (the empty pool of
a new node does): every entry is keyed by its transaction's hash and none holds the placeholder.
A submission is refused exactly for the placeholder; it is reported as known, with the node
unchanged, exactly when its hash is pending; otherwise it is taken, and the pool gains exactly
its entry. A block the node takes removes exactly the entries keyed by the hashes of its
transactions other than the placeholder, keeping the rest in order. The pending list holds every
pooled transaction once, in strictly rising hash order, and is the same for every pool with the
invariant and the same transactions, whatever order they arrived in. -/
theorem pool_stays_keyed_and_ordered (n : Node) (hn : n.pool.Inv) (calls : List PoolCall) :
    let m := n.performAll calls
    (∀ e ∈ m.pool.entries, e.1 = e.2.hash ∧ e.2.isPlaceholder = false) ∧
    (∀ t, (∃ r, m.addTransaction t = .error r) ↔ t.isPlaceholder = true) ∧
    (∀ t m', m.addTransaction t = .ok (false, m') ↔
      t.isPlaceholder = false ∧ (∃ e ∈ m.pool.entries, e.1 = t.hash) ∧ m' = m) ∧
    (∀ t, (∃ m', m.addTransaction t = .ok (true, m')) ↔
      t.isPlaceholder = false ∧ ∀ e ∈ m.pool.entries, e.1 ≠ t.hash) ∧
    (∀ t m', m.addTransaction t = .ok (true, m') →
      m' = { m with pool := m'.pool } ∧ m'.pool.entries.Perm ((t.hash, t) :: m.pool.entries)) ∧
    (∀ b checkTime now m', m.acceptBlock b checkTime now = .ok m' →
      m'.pool.entries = m.pool.entries.filter fun e =>
        e.1 ∉ (b.transactions.filter (!·.isPlaceholder)).map Transaction.hash) ∧
    (∀ t, t ∈ m.pool.pending ↔ (t.hash, t) ∈ m.pool.entries) ∧
    m.pool.pending.Nodup ∧
    (m.pool.pending.map Transaction.hash).Pairwise (fun a b => Digest.lexCompare a b = .lt) ∧
    ∀ q : Pool, q.Inv → (∀ t, t ∈ q.pending ↔ t ∈ m.pool.pending) →
      q.pending = m.pool.pending := by
  intro m
  have hm : m.pool.Inv := hn.performAll calls
  refine ⟨fun e he => ⟨hm.keyed e he, hm.real e he⟩, fun t => ?_, fun t m' => ?_, fun t => ?_,
    fun t m' h => ?_, fun b checkTime now m' h => ?_, hm.mem_pending_iff, hm.nodup_pending,
    hm.ascending_pending, fun q hq hmem => hq.pending_eq hm hmem⟩
  · -- refused
    rw [← Pool.add_eq_error_iff, Node.addTransaction_eq]
    cases m.pool.add t <;> simp [Except.map]
  · -- known
    rw [Node.addTransaction_eq_ok_iff, Pool.add_eq_known_iff]
    constructor
    · rintro ⟨⟨hreal, hkey, hpool⟩, hm'⟩
      exact ⟨hreal, hkey, by rw [hm', hpool]⟩
    · rintro ⟨hreal, hkey, rfl⟩
      exact ⟨⟨hreal, hkey, rfl⟩, rfl⟩
  · -- taken
    constructor
    · rintro ⟨m', h⟩
      obtain ⟨hreal, hfresh, -⟩ := Pool.add_eq_new_iff.1 (Node.addTransaction_eq_ok_iff.1 h).1
      exact ⟨hreal, hfresh⟩
    · rintro ⟨hreal, hfresh⟩
      refine ⟨{ m with pool := ⟨Pool.insertByHash (t.hash, t) m.pool.entries⟩ }, ?_⟩
      exact Node.addTransaction_eq_ok_iff.2 ⟨Pool.add_eq_new_iff.2 ⟨hreal, hfresh, rfl⟩, rfl⟩
  · -- what a taken submission adds
    obtain ⟨hadd, hm'⟩ := Node.addTransaction_eq_ok_iff.1 h
    obtain ⟨-, -, hentries⟩ := Pool.add_eq_new_iff.1 hadd
    exact ⟨hm', hentries ▸ Pool.perm_insertByHash _ _⟩
  · -- what a taken block removes
    rw [Node.pool_of_acceptBlock h, Pool.entries_prune]

/-- Two transactions that differ in their identity alone. -/
def txA : Transaction := ⟨1, "a", 0, 0, [1]⟩

/-- The transaction `txA` with identity `b`. -/
def txB : Transaction := ⟨1, "b", 0, 0, [1]⟩

/-- The digest of `txA` comes first in hash order. -/
theorem txA_hash_lt_txB : Digest.lexCompare txA.hash txB.hash = .lt := by
  decide +kernel

/-- A node holding `rootBlock`, without zero bits asked, that is sent `txB` and then `txA`, out
of hash order, then `txB` again, which it reports as known, and then offered the block after
`rootBlock` over `txA`, which it takes. -/
theorem pool_stays_keyed_and_ordered_out_of_order :
    (Node.make openParams ⟨[rootBlock]⟩).pool.Inv ∧
    Digest.lexCompare txA.hash txB.hash = .lt ∧
    let m := (Node.make openParams ⟨[rootBlock]⟩).performAll
      [.submit txB, .submit txA, .submit txB, .offer (blockAfterRoot [txA]) false 0]
    m.chain.blocks = [rootBlock, blockAfterRoot [txA]] ∧
    (∀ e ∈ m.pool.entries, e.1 = e.2.hash ∧ e.2.isPlaceholder = false) ∧
    (∀ t, (∃ r, m.addTransaction t = .error r) ↔ t.isPlaceholder = true) ∧
    (∀ t m', m.addTransaction t = .ok (false, m') ↔
      t.isPlaceholder = false ∧ (∃ e ∈ m.pool.entries, e.1 = t.hash) ∧ m' = m) ∧
    (∀ t, (∃ m', m.addTransaction t = .ok (true, m')) ↔
      t.isPlaceholder = false ∧ ∀ e ∈ m.pool.entries, e.1 ≠ t.hash) ∧
    (∀ t m', m.addTransaction t = .ok (true, m') →
      m' = { m with pool := m'.pool } ∧ m'.pool.entries.Perm ((t.hash, t) :: m.pool.entries)) ∧
    (∀ b checkTime now m', m.acceptBlock b checkTime now = .ok m' →
      m'.pool.entries = m.pool.entries.filter fun e =>
        e.1 ∉ (b.transactions.filter (!·.isPlaceholder)).map Transaction.hash) ∧
    (∀ t, t ∈ m.pool.pending ↔ (t.hash, t) ∈ m.pool.entries) ∧
    m.pool.pending.Nodup ∧
    (m.pool.pending.map Transaction.hash).Pairwise (fun a b => Digest.lexCompare a b = .lt) ∧
    ∀ q : Pool, q.Inv → (∀ t, t ∈ q.pending ↔ t ∈ m.pool.pending) →
      q.pending = m.pool.pending := by
  -- the submissions leave the chain alone, so the node still holds `rootBlock` when offered
  obtain ⟨q, hq⟩ := Node.performAll_submit (Node.make openParams ⟨[rootBlock]⟩) [txB, txA, txB]
  have hrun : (Node.make openParams ⟨[rootBlock]⟩).performAll
      [.submit txB, .submit txA, .submit txB, .offer (blockAfterRoot [txA]) false 0] =
      ⟨openParams, ⟨[rootBlock, blockAfterRoot [txA]]⟩, q.prune [txA]⟩ := by
    show ([txB, txA, txB].map PoolCall.submit ++
      [PoolCall.offer (blockAfterRoot [txA]) false 0]).foldl Node.perform _ = _
    rw [List.foldl_append, show ([txB, txA, txB].map PoolCall.submit).foldl Node.perform
      (Node.make openParams ⟨[rootBlock]⟩) = _ from hq, List.foldl_cons, List.foldl_nil]
    exact Node.perform_offer_of_ok (acceptBlock_blockAfterRoot q [txA])
  exact ⟨Pool.Inv.empty, txA_hash_lt_txB, by rw [hrun],
    pool_stays_keyed_and_ordered _ Pool.Inv.empty _⟩

end WorkLedger
