import WorkLedger.Proofs.Digest
import WorkLedger.Proofs.Validation
import WorkLedger.Mining.Search
import WorkLedger.Chain.Genesis

/-!
# Mined blocks pass the validator

The miner and the validator compute every rule on their own: the Merkle root of the candidate
set, the header hash, the target of the declared difficulty, the number and link to the previous
header, and the expected difficulty. This module joins them.

The nonce search changes a template in its nonce and timestamp only (`Mining.Restamps`), and
what it returns is sealed with its own hash and meets the target (`Mining.solve_header`). A
solved header of a template that commits to the transactions and names the chain then passes
every rule but the linkage ones (`Validator.check_solved`), and those hold of the block after a
previous header by construction of the search's template.

`mined_and_genesis_blocks_pass`: a block mined after a header with the difficulty retargeting
gives after it passes the validator against that header, for every clock, and carries the
search's candidate set; the first block of a chain, whatever budget its search was given,
passes against anything and starts a valid chain. A first block found within a budget is found
with every larger one (`Block.genesis_of_le`).

`Mining.search_candidates_keep_real_transactions`: that candidate set is the given transaction
alone, or the given list without placeholders, or the placeholder alone when nothing is left
(`Mining.candidateSet_eq`); it is never empty, holds the placeholder only by itself, keeps the
real transactions in order, and the template commits to its root.
-/

namespace WorkLedger.Mining

/-- The header `g` agrees with `f` except, perhaps, in its nonce and timestamp. -/
def Restamps (f g : HeaderFields) : Prop := ∃ n t, g = { f with nonce := n, timestamp := t }

theorem Restamps.refl (f : HeaderFields) : Restamps f f := ⟨f.nonce, f.timestamp, rfl⟩

theorem Restamps.trans {f g k : HeaderFields} (h1 : Restamps f g) (h2 : Restamps g k) :
    Restamps f k := by
  obtain ⟨n, t, rfl⟩ := h1
  obtain ⟨n', t', rfl⟩ := h2
  exact ⟨n', t', rfl⟩

theorem bump_restamps (f : HeaderFields) : Restamps f (HeaderFields.bump f) := by
  unfold HeaderFields.bump
  split
  · exact ⟨0, f.timestamp + 1, rfl⟩
  · exact ⟨f.nonce + 1, f.timestamp, rfl⟩

/-- What a search returns is sealed with its hash, meets the target, and is a restamped
candidate. -/
theorem searchFrom_header {target : Digest} {budget asked : Nat} {f : HeaderFields} {h : Header}
    (hs : (searchFrom target budget asked f).header = some h) :
    h.hash = h.fields.hash ∧ h.hash.meets target = true ∧ Restamps f h.fields := by
  induction budget generalizing asked f with
  | zero => simp [searchFrom] at hs
  | succ budget ih =>
    simp only [searchFrom] at hs
    split at hs
    · rename_i hm
      cases hs
      exact ⟨rfl, hm, Restamps.refl f⟩
    · obtain ⟨h1, h2, h3⟩ := ih hs
      exact ⟨h1, h2, (bump_restamps f).trans h3⟩

/-- A search that found a header finds it with any larger budget. -/
theorem searchFrom_of_le {target : Digest} {budget budget' asked : Nat} {f : HeaderFields}
    {h : Header} (hs : (searchFrom target budget asked f).header = some h)
    (hle : budget ≤ budget') : (searchFrom target budget' asked f).header = some h := by
  induction budget generalizing budget' asked f with
  | zero => simp [searchFrom] at hs
  | succ budget ih =>
    obtain ⟨budget', rfl⟩ : ∃ k, budget' = k + 1 := ⟨budget' - 1, by omega⟩
    simp only [searchFrom] at hs ⊢
    split at hs
    · rename_i hm
      rw [if_pos hm]
      exact hs
    · rename_i hm
      rw [if_neg hm]
      exact ih hs (by omega)

theorem solve_header {template : HeaderFields} {target : Digest} {budget : Nat} {h : Header}
    (hs : (solve template target budget).header = some h) :
    h.hash = h.fields.hash ∧ h.hash.meets target = true ∧ Restamps template h.fields := by
  obtain ⟨h1, h2, h3⟩ := searchFrom_header hs
  exact ⟨h1, h2, Restamps.trans ⟨0, template.timestamp, rfl⟩ h3⟩

/-- A template with nonce zero that meets the target is taken at the first attempt. -/
theorem solve_of_meets {template : HeaderFields} {target : Digest} {budget : Nat}
    (h0 : template.nonce = 0) (hm : template.hash.meets target = true) :
    solve template target (budget + 1) = ⟨some ⟨template, template.hash⟩, 1⟩ := by
  have hz : ({ template with nonce := 0 } : HeaderFields) = template := by
    cases template
    simp_all
  simp [solve, searchFrom, hz, hm]

/-- Every header hash is a digest of 64 bytes. -/
theorem length_hash (f : HeaderFields) : f.hash.length = 64 := Digest.length_ofData _

end WorkLedger.Mining

namespace WorkLedger.Validator

open Mining

/-- A solved header of a template that commits to `txs` and names the chain passes every rule
but the linkage ones, which bind it only after the first block. -/
theorem check_solved {p : ChainParams} {s : Store} {template : HeaderFields}
    {txs : List Transaction} {budget : Nat} {h : Header} {previous : Option Header} {now : Int64}
    {w : List Header} (hroot : template.merkleRoot = Merkle.root txs)
    (hname : template.chainName = p.chainName)
    (hs : (solve template (Target.ofDifficulty p template.difficulty) budget).header = some h)
    (hlink : 0 < h.blockNumber → checkLinkage ⟨p, s⟩ h previous w = .ok ()) :
    check ⟨p, s⟩ ⟨h, txs⟩ previous false now w = .ok () := by
  obtain ⟨hhash, hmeets, n, t, hf⟩ := solve_header hs
  rw [check_eq_ok_iff]
  refine ⟨?_, ?_, hhash.symm, hlink, ?_, by simp⟩
  · simp [Header.merkleRoot, hf, hroot]
  · simp [hf, hname]
  · simpa [Target.headerMeets, Header.difficulty, hf] using hmeets

end WorkLedger.Validator

namespace WorkLedger.Mining.Search

/-- The search for the block after `previous`: its template, candidate set and target. -/
theorem make_eq_ok {p : ChainParams} {previous : Header} {txs : List Transaction} {d : Decimal}
    {timestamp : Int64} {signature : String} {s : Search}
    (hs : make p previous txs d timestamp signature = .ok s) :
    s = ⟨⟨p.headerVersion, p.chainName, previous.blockNumber + 1, previous.hash,
      Merkle.root (candidateSet txs), timestamp, d, 0, signature⟩, candidateSet txs,
      Target.ofDifficulty p d, .created⟩ := by
  simp only [make, bind, Except.bind, HeaderFields.sealed] at hs
  split at hs
  · cases hs
  · simp only [pure, Except.pure] at hs
    exact (Except.ok.inj hs).symm

/-- A run that returns a block found it by solving the template, and carries the candidates. -/
theorem run_eq_some {s s' : Search} {budget : Nat} {b : Block}
    (hrun : s.run budget = (some b, s')) :
    ∃ h, (solve s.template s.target budget).header = some h ∧ b = ⟨h, s.transactions⟩ := by
  unfold run at hrun
  split at hrun
  · split at hrun
    · rename_i h hh
      cases hrun
      exact ⟨h, hh, rfl⟩
    · cases hrun
  · cases hrun

/-- A created search whose template is solved within the budget returns the block and is found. -/
theorem run_eq_of_solve {s : Search} {budget : Nat} {h : Header} (hc : s.state = .created)
    (hs : (solve s.template s.target budget).header = some h) :
    s.run budget = (some ⟨h, s.transactions⟩, { s with state := .found }) := by
  simp [run, hc, hs]

/-- A block mined after `previous` with the difficulty retargeting gives after it passes the
validator against `previous`, and carries the candidate set. -/
theorem run_passes_check {p : ChainParams} {store : Store} {window : List Header}
    {previous : Header} {txs : List Transaction} {d : Decimal} {timestamp : Int64}
    {signature : String} {s s' : Search} {budget : Nat} {b : Block}
    (hd : Retarget.next p store previous window = .ok d)
    (hs : make p previous txs d timestamp signature = .ok s)
    (hrun : s.run budget = (some b, s')) (now : Int64) :
    Validator.check ⟨p, store⟩ b (some previous) false now window = .ok () ∧
      b.transactions = candidateSet txs := by
  obtain rfl := make_eq_ok hs
  obtain ⟨h, hsolve, rfl⟩ := run_eq_some hrun
  obtain ⟨-, -, n, t, hf⟩ := solve_header hsolve
  refine ⟨Validator.check_solved rfl rfl hsolve fun _ => ?_, rfl⟩
  -- the template's number, link and difficulty are the linkage rules' expectations
  rw [Validator.checkLinkage_eq_ok_iff]
  refine ⟨previous, rfl, by simp [Header.blockNumber, hf], by simp [Header.previousHash, hf], d,
    hd, by simp [Header.difficulty, hf]⟩

end WorkLedger.Mining.Search

namespace WorkLedger

theorem Block.genesis_eq_ok {p : ChainParams} {budget : Nat} {g : Block}
    (hg : Block.genesis p budget = .ok g) :
    ∃ h, (Mining.solve (genesisTemplate p) (Target.ofDifficulty p p.initialDifficulty)
        budget).header = some h ∧ g = ⟨h, [Transaction.placeholder]⟩ := by
  unfold Block.genesis at hg
  -- the search result is named before any case split, so that nothing evaluates the search
  generalize (Mining.solve _ _ budget).header = r at hg ⊢
  cases r with
  | none => cases hg
  | some h => exact ⟨h, rfl, (Except.ok.inj hg).symm⟩

/-- **A first block found within a budget is the first block for every larger budget**: the
search is never told to stop, and a larger budget only lets it run further. -/
theorem Block.genesis_of_le {p : ChainParams} {budget budget' : Nat} {g : Block}
    (hg : Block.genesis p budget = .ok g) (hle : budget ≤ budget') :
    Block.genesis p budget' = .ok g := by
  obtain ⟨h, hsolve, rfl⟩ := Block.genesis_eq_ok hg
  rw [Block.genesis, Mining.solve, Mining.searchFrom_of_le hsolve hle]
  rfl

/-- The first block of a chain passes the validator whatever it is checked after, and the chain
made of it alone is valid. -/
theorem Block.genesis_passes_check {p : ChainParams} {budget : Nat} {g : Block}
    (hg : Block.genesis p budget = .ok g) :
    (∀ (store : Store) (previous : Option Header) (now : Int64) (window : List Header),
      Validator.check ⟨p, store⟩ g previous false now window = .ok ()) ∧
    ∃ c, Store.empty.append g = .ok c ∧ c.blocks = [g] ∧ c.Valid p := by
  obtain ⟨h, hsolve, rfl⟩ := Block.genesis_eq_ok hg
  obtain ⟨-, -, n, t, hf⟩ := Mining.solve_header hsolve
  have hzero : h.blockNumber = 0 := by simp [Header.blockNumber, hf, genesisTemplate]
  have hpass : ∀ (store : Store) (previous : Option Header) (now : Int64) (window : List Header),
      Validator.check ⟨p, store⟩ ⟨h, [Transaction.placeholder]⟩ previous false now window =
        .ok () :=
    fun _ _ _ _ => Validator.check_solved rfl rfl hsolve (by simp [hzero])
  refine ⟨hpass, _, ?_, rfl, ?_⟩
  · simp [Store.append, Store.empty, Store.height, Store.head?, Block.blockNumber, hzero]
  · constructor
    · intro i hi
      simp only [List.length_singleton, Nat.lt_one_iff] at hi
      subst hi
      simp [Block.blockNumber, hzero]
    · intro i hi
      simp at hi
    · intro _ now
      exact hpass _ _ _ _
    · intro i hi
      simp at hi

/-- With no zero bits demanded, the target of difficulty one keeps every bit. -/
theorem Target.ofDifficulty_one {p : ChainParams} (hp : p.maxZeroBits = 0) :
    Target.ofDifficulty p Decimal.one = ⟨List.replicate 64 255⟩ := by
  unfold Target.ofDifficulty
  rw [hp]
  decide +kernel

/-- When the template's own hash meets the target of the initial difficulty, the first block
is the template itself, with nonce zero, for every budget of at least one attempt. -/
theorem Block.genesis_of_meets {p : ChainParams} (budget : Nat)
    (hm : (genesisTemplate p).hash.meets (Target.ofDifficulty p p.initialDifficulty) = true) :
    Block.genesis p (budget + 1) =
      .ok ⟨⟨genesisTemplate p, (genesisTemplate p).hash⟩, [Transaction.placeholder]⟩ := by
  rw [Block.genesis, Mining.solve_of_meets rfl hm]
  rfl

/-- **Mined blocks pass the validator.** Under any settings: a block that a search mines after
a header, with the difficulty that retargeting gives after that header, passes every rule of
the validator against that header, for every clock, and carries the candidate set of the
search's transactions; and the first block of a chain passes the validator against any previous
header, any chain and any window, so the chain that starts with it is valid. -/
theorem mined_and_genesis_blocks_pass (p : ChainParams) :
    (∀ (store : Store) (window : List Header) (previous : Header) (txs : List Transaction)
        (d : Decimal) (timestamp : Int64) (signature : String) (s s' : Mining.Search)
        (budget : Nat) (b : Block),
      Retarget.next p store previous window = .ok d →
      Mining.Search.make p previous txs d timestamp signature = .ok s →
      s.run budget = (some b, s') →
      (∀ now, Validator.check ⟨p, store⟩ b (some previous) false now window = .ok ()) ∧
        b.transactions = Mining.candidateSet txs) ∧
    (∀ budget g, Block.genesis p budget = .ok g →
      (∀ (store : Store) (previous : Option Header) (now : Int64) (window : List Header),
        Validator.check ⟨p, store⟩ g previous false now window = .ok ()) ∧
      ∃ c, Store.empty.append g = .ok c ∧ c.blocks = [g] ∧ c.Valid p) := by
  refine ⟨fun store window previous txs d timestamp signature s s' budget b hd hs hrun => ?_,
    fun budget g hg => Block.genesis_passes_check hg⟩
  exact ⟨fun now => (Mining.Search.run_passes_check hd hs hrun now).1,
    (Mining.Search.run_passes_check hd hs hrun 0).2⟩

/-- With no zero bits demanded, every digest meets the target of difficulty one: the first
candidates of a search and of the first block are taken, and pass. -/
theorem mined_and_genesis_blocks_pass_at_difficulty_one :
    ∃ s b s' g,
      Retarget.next ⟨"tessera-test", 1, 2, 10, 0, 600, Decimal.one, 0, 5, 120⟩ Store.empty
          ⟨⟨1, "tessera-test", 0, Digest.zero, Digest.zero, 0, Decimal.one, 0, ""⟩,
            Digest.zero⟩ [] =
        .ok Decimal.one ∧
      Mining.Search.make ⟨"tessera-test", 1, 2, 10, 0, 600, Decimal.one, 0, 5, 120⟩
          ⟨⟨1, "tessera-test", 0, Digest.zero, Digest.zero, 0, Decimal.one, 0, ""⟩,
            Digest.zero⟩
          [] Decimal.one 0 "" = .ok s ∧
      s.run 1 = (some b, s') ∧
      (∀ now, Validator.check ⟨⟨"tessera-test", 1, 2, 10, 0, 600, Decimal.one, 0, 5, 120⟩,
          Store.empty⟩ b
          (some ⟨⟨1, "tessera-test", 0, Digest.zero, Digest.zero, 0, Decimal.one, 0, ""⟩,
            Digest.zero⟩) false now [] = .ok ()) ∧
      b.transactions = [Transaction.placeholder] ∧
      Block.genesis ⟨"tessera-test", 1, 2, 10, 0, 600, Decimal.one, 0, 5, 120⟩ 1 = .ok g ∧
      ∃ c, Store.empty.append g = .ok c ∧
        c.Valid ⟨"tessera-test", 1, 2, 10, 0, 600, Decimal.one, 0, 5, 120⟩ := by
  set p : ChainParams := ⟨"tessera-test", 1, 2, 10, 0, 600, Decimal.one, 0, 5, 120⟩
  set previous : Header :=
    ⟨⟨1, "tessera-test", 0, Digest.zero, Digest.zero, 0, Decimal.one, 0, ""⟩, Digest.zero⟩
  have hmeets (f : HeaderFields) : f.hash.meets (Target.ofDifficulty p Decimal.one) = true := by
    rw [Target.ofDifficulty_one rfl]
    exact Digest.meets_all_ones (Mining.length_hash f)
  have hpass := mined_and_genesis_blocks_pass p
  have hnext : Retarget.next p Store.empty previous [] = .ok Decimal.one := rfl
  obtain ⟨s, hmake⟩ : ∃ s, Mining.Search.make p previous [] Decimal.one 0 "" = .ok s :=
    ⟨_, rfl⟩
  have hs := Mining.Search.make_eq_ok hmake
  -- the template has nonce zero and its hash meets the widest target, so one attempt solves it
  have hr := @Mining.Search.run_eq_of_solve s 1 _ (by rw [hs])
    (by rw [hs]; exact congrArg Mining.Outcome.header (Mining.solve_of_meets rfl (hmeets _)))
  obtain ⟨g, hgen⟩ : ∃ g, Block.genesis p 1 = .ok g := ⟨_, Block.genesis_of_meets 0 (hmeets _)⟩
  obtain ⟨hcheck, htxs⟩ := hpass.1 _ _ _ _ _ _ _ _ _ _ _ hnext hmake hr
  obtain ⟨c, hc, -, hv⟩ := (hpass.2 1 g hgen).2
  exact ⟨s, _, _, g, hnext, hmake, hr, hcheck, htxs.trans rfl, hgen, c, hc, hv⟩

end WorkLedger

namespace WorkLedger

@[simp] theorem Transaction.isPlaceholder_iff (t : Transaction) :
    t.isPlaceholder = true ↔ t = Transaction.placeholder := beq_iff_eq

@[simp] theorem Transaction.isPlaceholder_placeholder :
    Transaction.placeholder.isPlaceholder = true :=
  beq_self_eq_true _

namespace Mining

/-! ## The candidate set

The length test comes before the filter, so the empty list, a single transaction and longer
lists take different branches; all of them end in a set that is not empty, holds the
placeholder only as its one element, and keeps the real transactions in order. -/

/-- One transaction is taken as it is; otherwise the placeholders are dropped, and the
placeholder alone stands in for an empty result. -/
theorem candidateSet_eq (txs : List Transaction) :
    candidateSet txs =
      if txs.length = 1 then txs
      else if txs.filter (!·.isPlaceholder) = [] then [Transaction.placeholder]
      else txs.filter (!·.isPlaceholder) := by
  rcases txs with _ | ⟨t, _ | ⟨u, rest⟩⟩ <;> simp [candidateSet]

theorem candidateSet_ne_nil (txs : List Transaction) : candidateSet txs ≠ [] := by
  rw [candidateSet_eq]
  split_ifs with h1 h2
  · exact List.ne_nil_of_length_pos (by omega)
  · exact List.cons_ne_nil _ _
  · exact h2

/-- The placeholder is a candidate only when it is the only one. -/
theorem eq_placeholder_of_mem {txs : List Transaction}
    (h : Transaction.placeholder ∈ candidateSet txs) :
    candidateSet txs = [Transaction.placeholder] := by
  rw [candidateSet_eq] at h ⊢
  split_ifs at h ⊢ with h1 h2
  · obtain ⟨t, rfl⟩ := List.length_eq_one_iff.1 h1
    rw [List.mem_singleton] at h
    rw [h]
  · rfl
  · simp [List.mem_filter] at h

/-- The real transactions are the candidates' real transactions, in order and with their
repetitions. -/
theorem filter_candidateSet (txs : List Transaction) :
    (candidateSet txs).filter (!·.isPlaceholder) = txs.filter (!·.isPlaceholder) := by
  rw [candidateSet_eq]
  split_ifs with h1 h2
  · rfl
  · rw [h2]
    simp
  · rw [List.filter_filter]
    apply List.filter_congr
    intro t _
    simp

/-- The candidates are all placeholders exactly when they are the placeholder alone. -/
theorem all_isPlaceholder_candidateSet_iff (txs : List Transaction) :
    (candidateSet txs).all (·.isPlaceholder) = true ↔
      candidateSet txs = [Transaction.placeholder] := by
  constructor
  · intro h
    obtain ⟨t, rest, hcons⟩ := List.exists_cons_of_ne_nil (candidateSet_ne_nil txs)
    have ht : t = Transaction.placeholder :=
      (Transaction.isPlaceholder_iff t).1 (List.all_eq_true.1 h t (by simp [hcons]))
    exact eq_placeholder_of_mem (by simp [hcons, ht])
  · intro h
    simp [h]

namespace Search

/-- A search can be built exactly when the signature has at most fifty characters. -/
theorem make_isOk_iff (p : ChainParams) (previous : Header) (txs : List Transaction)
    (d : Decimal) (timestamp : Int64) (signature : String) :
    (∃ s, make p previous txs d timestamp signature = .ok s) ↔
      signature.length ≤ HeaderFields.maxSignatureLength := by
  by_cases h : HeaderFields.maxSignatureLength < signature.length
  · simp [make, HeaderFields.sealed, HeaderFields.checkSignature, h, bind, Except.bind]
  · simp [make, HeaderFields.sealed, HeaderFields.checkSignature, h, bind, Except.bind, pure,
      Except.pure]
    omega

end Search

/-- **A search's candidate set.** A search is built exactly when the signature is short enough.
Its transactions are then the given list when it has one transaction, and otherwise the list
without placeholders, or the placeholder alone when nothing else is left: never empty, holding
the placeholder only as its one element, with every real transaction of the list in order and
as often as there. The search carries only the placeholder exactly when its set is the
placeholder alone, and its template commits to the Merkle root of that set. -/
theorem search_candidates_keep_real_transactions (p : ChainParams) (previous : Header)
    (txs : List Transaction) (d : Decimal) (timestamp : Int64) (signature : String) :
    ((∃ s, Search.make p previous txs d timestamp signature = .ok s) ↔
      signature.length ≤ HeaderFields.maxSignatureLength) ∧
    ∀ s, Search.make p previous txs d timestamp signature = .ok s →
      s.transactions =
        (if txs.length = 1 then txs
         else if txs.filter (!·.isPlaceholder) = [] then [Transaction.placeholder]
         else txs.filter (!·.isPlaceholder)) ∧
      s.transactions ≠ [] ∧
      (Transaction.placeholder ∈ s.transactions →
        s.transactions = [Transaction.placeholder]) ∧
      s.transactions.filter (!·.isPlaceholder) = txs.filter (!·.isPlaceholder) ∧
      (s.placeholderOnly = true ↔ s.transactions = [Transaction.placeholder]) ∧
      s.template.merkleRoot = Merkle.root s.transactions := by
  refine ⟨Search.make_isOk_iff p previous txs d timestamp signature, fun s hs => ?_⟩
  obtain rfl := Search.make_eq_ok hs
  exact ⟨candidateSet_eq txs, candidateSet_ne_nil txs, eq_placeholder_of_mem,
    filter_candidateSet txs, all_isPlaceholder_candidateSet_iff txs, rfl⟩

end Mining

end WorkLedger
