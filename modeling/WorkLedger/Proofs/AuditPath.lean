import Mathlib
import WorkLedger.Ledger.Compact

/-!
# Audit paths rebuild the Merkle root

An audit path is built by walking the pairing rounds of the Merkle root from a leaf up, and
checked by folding its steps over the transaction's hash. The two walks meet level by level:
at round `r` the running digest of the fold is node `⌊i / 2^r⌋` of level `r`, whatever the
parity of the index and the length of the level, so that odd levels, whose last node is paired
with itself, need no case of their own. Nothing is assumed of the hash function.

`ofBlock_rebuilds_root`: the audit path of a transaction exists exactly when the transaction
is in the block; it is about that transaction and that block, has one step per pairing round
(`max 1 ⌈log₂ n⌉` for `n` transactions), and folds to the Merkle root of the transactions.
Both operations refuse with `transactionNotPresent` exactly when the transaction is missing, and
a compact block built from a block verifies exactly when the header's root is the root of the
block's transactions.

`pairing_rounds_stay_in_bounds`: after `r` rounds a level of `n` nodes has `⌈n / 2^r⌉`
(`Merkle.length_iterate_pairUp`), so the root loop stops after round `max 1 ⌈log₂ n⌉` and no
earlier (`Merkle.iterate_pairUp_rounds`, `Merkle.climb_eq_iterate`), and the audit path loop
makes its step of round `r` at node `⌊i / 2^r⌋` (`stepsFrom_eq_map`), which lies inside level
`r` (`div_pow_lt_length`).
-/

namespace WorkLedger.Merkle

theorem length_pairUp_lt {level : List Digest} (h : (pairUp level).length ≠ 1)
    (hne : level ≠ []) : (pairUp level).length < level.length := by
  have := List.length_pos_iff.2 hne
  rw [length_pairUp] at h ⊢
  omega

theorem pairUp_ne_nil {level : List Digest} (hne : level ≠ []) : pairUp level ≠ [] := by
  have := List.length_pos_iff.2 hne
  rw [← List.length_pos_iff, length_pairUp]
  omega

/-- Node `j` of the next level combines nodes `2j` and `2j + 1`, or node `2j` with itself when
it is last. -/
theorem getD_pairUp : ∀ (level : List Digest) (j : Nat), j < (pairUp level).length →
    (pairUp level).getD j Digest.zero = Digest.combine (level.getD (2 * j) Digest.zero)
      ((level[2 * j + 1]?).getD (level.getD (2 * j) Digest.zero))
  | a :: b :: rest, 0, _ => by simp [pairUp]
  | a :: b :: rest, j + 1, h => by
    have := getD_pairUp rest j (by simpa [pairUp] using h)
    simpa [pairUp, Nat.mul_add] using this
  | [a], 0, _ => by simp [pairUp]
  | [a], j + 1, h => by simp [pairUp] at h
  | [], _, h => by simp [pairUp] at h

/-- A non-empty level climbs one round, and stops when that round leaves one node. -/
theorem climb_eq {level : List Digest} (hne : level ≠ []) :
    climb level =
      if h : (pairUp level).length = 1 then (pairUp level)[0] else climb (pairUp level) := by
  rw [climb]
  split
  · rename_i d hd
    simp [hd]
  · rename_i next hnext
    have h1 : (pairUp level).length ≠ 1 := by
      intro h1
      obtain ⟨d, hd⟩ := List.length_eq_one_iff.1 h1
      exact hnext d hd
    rw [dif_pos (length_pairUp_lt h1 hne), dif_neg h1]

@[simp] theorem length_leaves (txs : List Transaction) : (leaves txs).length = txs.length := by
  simp [leaves]

/-! ## Rounds of the pairing loops

Level `r` of the pairing rounds over `level` is `pairUp^[r] level`. -/

/-- After `r` rounds a level of `n` nodes has `⌈n / 2^r⌉`: each round halves it, rounding up. -/
theorem length_iterate_pairUp (level : List Digest) (r : Nat) :
    (pairUp^[r] level).length = (level.length + 2 ^ r - 1) / 2 ^ r := by
  induction r with
  | zero => simp
  | succ r ih =>
    have hpos : 0 < 2 ^ r := Nat.two_pow_pos r
    rw [Function.iterate_succ_apply', length_pairUp, ih]
    calc ((level.length + 2 ^ r - 1) / 2 ^ r + 1) / 2
        = (level.length + 2 ^ r - 1 + 2 ^ r) / 2 ^ r / 2 := by rw [Nat.add_div_right _ hpos]
      _ = (level.length + 2 ^ r - 1 + 2 ^ r) / (2 ^ r * 2) := Nat.div_div_eq_div_mul _ _ _
      _ = (level.length + 2 ^ (r + 1) - 1) / 2 ^ (r + 1) := by
        rw [pow_succ]
        congr 1
        omega

/-- A non-empty level is down to one node after `r` rounds exactly when it had at most `2^r`. -/
theorem length_iterate_pairUp_eq_one {level : List Digest} (hne : level ≠ []) (r : Nat) :
    (pairUp^[r] level).length = 1 ↔ level.length ≤ 2 ^ r := by
  have hpos : 0 < 2 ^ r := Nat.two_pow_pos r
  have hn := List.length_pos_iff.2 hne
  have hlo := Nat.le_div_iff_mul_le (x := 1) (y := level.length + 2 ^ r - 1) hpos
  have hhi := Nat.div_lt_iff_lt_mul (x := level.length + 2 ^ r - 1) (y := 2) hpos
  rw [length_iterate_pairUp]
  constructor
  · intro h
    have := hhi.1 (by omega)
    omega
  · intro h
    have := hlo.2 (by omega)
    have := hhi.2 (by omega)
    omega

/-- The root loop leaves after round `max 1 ⌈log₂ n⌉` and not before: no round before it ends
with one node, and that round does. -/
theorem iterate_pairUp_rounds {level : List Digest} (hne : level ≠ []) :
    (∀ r, 0 < r → r < max 1 (Nat.clog 2 level.length) → (pairUp^[r] level).length ≠ 1) ∧
    (pairUp^[max 1 (Nat.clog 2 level.length)] level).length = 1 := by
  constructor
  · intro r hr hk
    rw [Ne, length_iterate_pairUp_eq_one hne, ← Nat.clog_le_iff_le_pow Nat.one_lt_two]
    omega
  · rw [length_iterate_pairUp_eq_one hne, ← Nat.clog_le_iff_le_pow Nat.one_lt_two]
    exact le_max_right _ _

/-- A level of two nodes or fewer takes one round. -/
theorem rounds_of_pairUp_length_one {level : List Digest} (hne : level ≠ [])
    (h1 : (pairUp level).length = 1) : max 1 (Nat.clog 2 level.length) = 1 := by
  have h := (length_iterate_pairUp_eq_one hne 1).1 h1
  have : Nat.clog 2 level.length ≤ 1 := (Nat.clog_le_iff_le_pow Nat.one_lt_two).2 h
  omega

/-- A level that a round does not bring down to one node takes one round more than the next. -/
theorem rounds_of_pairUp_length_ne_one {level : List Digest} (hne : level ≠ [])
    (h1 : (pairUp level).length ≠ 1) :
    max 1 (Nat.clog 2 level.length) = max 1 (Nat.clog 2 (pairUp level).length) + 1 := by
  rw [length_pairUp] at h1 ⊢
  have hn := List.length_pos_iff.2 hne
  have hc := Nat.clog_pos (b := 2) Nat.one_lt_two (by omega : 1 < (level.length + 1) / 2)
  have hrec : Nat.clog 2 level.length = Nat.clog 2 ((level.length + 1) / 2) + 1 := by
    simpa using Nat.clog_of_two_le Nat.one_lt_two (by omega : 2 ≤ level.length)
  omega

/-- The root is the one node left after `max 1 ⌈log₂ n⌉` rounds. -/
theorem climb_eq_iterate (level : List Digest) (hne : level ≠ []) :
    climb level = (pairUp^[max 1 (Nat.clog 2 level.length)] level).getD 0 Digest.zero := by
  rw [climb_eq hne]
  by_cases h1 : (pairUp level).length = 1
  · rw [dif_pos h1, rounds_of_pairUp_length_one hne h1, Function.iterate_one,
      List.getD_eq_getElem _ _ (by omega)]
  · rw [dif_neg h1, climb_eq_iterate (pairUp level) (pairUp_ne_nil hne),
      rounds_of_pairUp_length_ne_one hne h1, Function.iterate_succ_apply]
termination_by level.length
decreasing_by exact length_pairUp_lt h1 hne

end WorkLedger.Merkle

namespace WorkLedger.AuditPath

/-! ## One round, then every round -/

/-- A non-empty level gives one step, then the steps of the next level unless it has one node. -/
theorem stepsFrom_eq {level : List Digest} (hne : level ≠ []) (i : Nat) :
    stepsFrom level i = stepAt level i ::
      if (Merkle.pairUp level).length = 1 then [] else stepsFrom (Merkle.pairUp level) (i / 2) := by
  rw [stepsFrom]
  by_cases h1 : (Merkle.pairUp level).length = 1
  · simp [h1]
  · simp [h1, Merkle.length_pairUp_lt h1 hne]

/-- The step at node `i` takes it to node `i / 2` of the next level. -/
theorem climbStep_stepAt (level : List Digest) (i : Nat) (h : i < level.length) :
    climbStep level[i] (stepAt level i) = (Merkle.pairUp level).getD (i / 2) Digest.zero := by
  rw [Merkle.getD_pairUp _ _ (by rw [Merkle.length_pairUp]; omega)]
  rcases Nat.mod_two_eq_zero_or_one i with even | odd
  · -- an even node is the left one of its pair, or the last node paired with itself
    have hi : 2 * (i / 2) = i := by omega
    simp [climbStep, stepAt, even, hi, List.getElem?_eq_getElem h, List.getD_eq_getElem?_getD]
  · -- an odd node is the right one, with its left neighbour as sibling
    have hi : 2 * (i / 2) = i - 1 := by omega
    have hj : i - 1 + 1 = i := by omega
    simp [climbStep, stepAt, odd, hi, hj, List.getElem?_eq_getElem h, List.getD_eq_getElem?_getD,
      List.getElem?_eq_getElem (by omega : i - 1 < level.length)]

/-- Folding the steps from node `i` climbs to the root of the level. -/
theorem foldl_stepsFrom (level : List Digest) (i : Nat) (h : i < level.length) :
    (stepsFrom level i).foldl climbStep level[i] = Merkle.climb level := by
  have hne : level ≠ [] := List.ne_nil_of_length_pos (by omega)
  rw [stepsFrom_eq hne, Merkle.climb_eq hne, List.foldl_cons, climbStep_stepAt level i h]
  by_cases h1 : (Merkle.pairUp level).length = 1
  · have : i / 2 = 0 := by rw [Merkle.length_pairUp] at h1; omega
    simp [h1, this]
  · have hlt : i / 2 < (Merkle.pairUp level).length := by rw [Merkle.length_pairUp]; omega
    rw [if_neg h1, dif_neg h1, ← List.getElem_eq_getD]
    exact foldl_stepsFrom (Merkle.pairUp level) (i / 2) hlt
termination_by level.length
decreasing_by exact Merkle.length_pairUp_lt h1 hne

/-- The audit path loop makes one step per round, at node `⌊i / 2^r⌋` of level `r`. -/
theorem stepsFrom_eq_map (level : List Digest) (hne : level ≠ []) (i : Nat) :
    stepsFrom level i = (List.range (max 1 (Nat.clog 2 level.length))).map
      fun r => stepAt (Merkle.pairUp^[r] level) (i / 2 ^ r) := by
  rw [stepsFrom_eq hne]
  by_cases h1 : (Merkle.pairUp level).length = 1
  · rw [if_pos h1, Merkle.rounds_of_pairUp_length_one hne h1]
    simp
  · rw [if_neg h1, stepsFrom_eq_map (Merkle.pairUp level) (Merkle.pairUp_ne_nil hne) (i / 2),
      Merkle.rounds_of_pairUp_length_ne_one hne h1, List.range_succ_eq_map, List.map_cons,
      List.map_map]
    -- round `r + 1` of `level` is round `r` of the level above it
    congr 1
    · simp
    · apply List.map_congr_left
      intro r _
      simp only [Function.comp_apply, Nat.succ_eq_add_one, Function.iterate_succ_apply,
        pow_succ', Nat.div_div_eq_div_mul]
termination_by level.length
decreasing_by exact Merkle.length_pairUp_lt h1 hne

/-- A level of `n` nodes takes `max 1 ⌈log₂ n⌉` rounds: each round halves it, rounding up. -/
theorem length_stepsFrom (level : List Digest) (hne : level ≠ []) (i : Nat) :
    (stepsFrom level i).length = max 1 (Nat.clog 2 level.length) := by
  rw [stepsFrom_eq_map level hne, List.length_map, List.length_range]

/-- The running node stays inside its level at every round. -/
theorem div_pow_lt_length {level : List Digest} {i : Nat} (hi : i < level.length) (r : Nat) :
    i / 2 ^ r < (Merkle.pairUp^[r] level).length := by
  have hpos := Nat.two_pow_pos r
  rw [Merkle.length_iterate_pairUp,
    show level.length + 2 ^ r - 1 = level.length - 1 + 2 ^ r by omega, Nat.add_div_right _ hpos]
  have := Nat.div_le_div_right (c := 2 ^ r) (by omega : i ≤ level.length - 1)
  omega

/-! ## Paths of a block -/

theorem ofBlock_of_not_mem {t : Transaction} {b : Block} (h : t ∉ b.transactions) :
    ofBlock t b = .error .transactionNotPresent := by
  have : b.transactions.idxOf? t = none := by simpa using h
  simp [ofBlock, this]

/-- The path of a transaction in the block starts at its first occurrence. -/
theorem ofBlock_of_mem {t : Transaction} {b : Block} (h : t ∈ b.transactions) :
    ∃ i, ∃ hi : i < b.transactions.length, b.transactions[i] = t ∧
      ofBlock t b = .ok ⟨t, b.blockNumber, stepsFrom (Merkle.leaves b.transactions) i⟩ := by
  obtain ⟨i, hi⟩ := Option.isSome_iff_exists.1 (List.isSome_idxOf?.2 h)
  obtain ⟨hlt, heq, -⟩ := List.idxOf?_eq_some_iff.1 hi
  exact ⟨i, hlt, heq, by simp [ofBlock, hi]⟩

theorem rootFor_eq_error_iff {t : Transaction} {p : AuditPath} :
    rootFor t p = .error .transactionNotPresent ↔ p.transaction ≠ t := by
  by_cases h : p.transaction = t <;> simp [rootFor, h]

/-- The path of a transaction in the block is about it and the block, has one step per pairing
round, and folds to the Merkle root. -/
theorem rootFor_ofBlock {t : Transaction} {b : Block} (h : t ∈ b.transactions) :
    ∃ p, ofBlock t b = .ok p ∧ p.transaction = t ∧ p.blockNumber = b.blockNumber ∧
      p.steps.length = max 1 (Nat.clog 2 b.transactions.length) ∧
      rootFor t p = .ok (Merkle.root b.transactions) := by
  obtain ⟨i, hi, rfl, hpath⟩ := ofBlock_of_mem h
  have hne : Merkle.leaves b.transactions ≠ [] := by
    rw [← List.length_pos_iff, Merkle.length_leaves]
    omega
  refine ⟨_, hpath, rfl, rfl, by rw [length_stepsFrom _ hne, Merkle.length_leaves], ?_⟩
  have hi' : i < (Merkle.leaves b.transactions).length := by simpa using hi
  have hleaf : (Merkle.leaves b.transactions)[i] = b.transactions[i].hash := by
    simp [Merkle.leaves]
  simp only [rootFor, if_pos, Merkle.root]
  rw [← hleaf, foldl_stepsFrom]

theorem verify_ofBlock (b : Block) (t : Transaction) :
    (CompactBlock.ofBlock b t >>= CompactBlock.verify) = .ok true ↔
      t ∈ b.transactions ∧ b.header.merkleRoot = Merkle.root b.transactions := by
  by_cases h : t ∈ b.transactions
  · obtain ⟨p, hp, -, hpn, -, hroot⟩ := rootFor_ofBlock h
    simp [CompactBlock.ofBlock, hp, CompactBlock.verify, hpn, Block.blockNumber, hroot, h,
      bind, Except.bind, pure, Except.pure]
    exact eq_comm
  · simp [CompactBlock.ofBlock, ofBlock_of_not_mem h, h, bind, Except.bind]

/-- **Audit paths are sound and complete.** A transaction has a path in a block exactly when it
is one of the block's transactions (each occurrence counts); the path names the transaction and
the block, has one step per pairing round, and rebuilds the Merkle root of the transactions.
Building the path refuses a missing transaction and nothing else; folding a path refuses
exactly a path about another transaction; and the compact block verifies exactly when the
header carries the root of the block's own transactions. -/
theorem ofBlock_rebuilds_root (b : Block) (t : Transaction) :
    (t ∈ b.transactions ↔ ∃ p, ofBlock t b = .ok p ∧ p.transaction = t ∧
        p.blockNumber = b.blockNumber ∧
        p.steps.length = max 1 (Nat.clog 2 b.transactions.length) ∧
        rootFor t p = .ok (Merkle.root b.transactions)) ∧
    (ofBlock t b = .error .transactionNotPresent ↔ t ∉ b.transactions) ∧
    (∀ p : AuditPath, rootFor t p = .error .transactionNotPresent ↔ p.transaction ≠ t) ∧
    ((CompactBlock.ofBlock b t >>= CompactBlock.verify) = .ok true ↔
      t ∈ b.transactions ∧ b.header.merkleRoot = Merkle.root b.transactions) := by
  refine ⟨⟨rootFor_ofBlock, ?_⟩, ⟨?_, ofBlock_of_not_mem⟩, fun _ => rootFor_eq_error_iff,
    verify_ofBlock b t⟩
  · rintro ⟨p, hp, -⟩
    by_contra h
    rw [ofBlock_of_not_mem h] at hp
    cases hp
  · intro h hmem
    obtain ⟨p, hp, -⟩ := rootFor_ofBlock hmem
    rw [hp] at h
    cases h

/-! ## The two loops, round by round -/

/-- **The pairing loops run `max 1 ⌈log₂ n⌉` rounds and stay inside their levels.** For a
non-empty level of `n` nodes: after `r` rounds it has `⌈n / 2^r⌉` nodes; each node of a round
combines the nodes `2j` and `2j + 1` of the round before, or node `2j` with itself, and node `2j`
is there; the root loop finds one node left after round `max 1 ⌈log₂ n⌉` and after no round
before, and the root is that node; and from every position `i` the audit path loop makes one
step per round, at node `⌊i / 2^r⌋` of round `r`, which is inside that round's level. -/
theorem pairing_rounds_stay_in_bounds (level : List Digest) (hne : level ≠ []) :
    let k := max 1 (Nat.clog 2 level.length)
    (∀ r, (Merkle.pairUp^[r] level).length = (level.length + 2 ^ r - 1) / 2 ^ r) ∧
    (∀ r, ∀ j < (Merkle.pairUp^[r + 1] level).length,
      2 * j < (Merkle.pairUp^[r] level).length ∧
      (Merkle.pairUp^[r + 1] level).getD j Digest.zero =
        Digest.combine ((Merkle.pairUp^[r] level).getD (2 * j) Digest.zero)
          (((Merkle.pairUp^[r] level)[2 * j + 1]?).getD
            ((Merkle.pairUp^[r] level).getD (2 * j) Digest.zero))) ∧
    (∀ r, 0 < r → r < k → (Merkle.pairUp^[r] level).length ≠ 1) ∧
    (Merkle.pairUp^[k] level).length = 1 ∧
    Merkle.climb level = (Merkle.pairUp^[k] level).getD 0 Digest.zero ∧
    ∀ i < level.length,
      stepsFrom level i =
        (List.range k).map (fun r => stepAt (Merkle.pairUp^[r] level) (i / 2 ^ r)) ∧
      ∀ r, i / 2 ^ r < (Merkle.pairUp^[r] level).length := by
  intro k
  obtain ⟨hmid, hlast⟩ := Merkle.iterate_pairUp_rounds hne
  refine ⟨Merkle.length_iterate_pairUp level, fun r j hj => ?_, hmid, hlast,
    Merkle.climb_eq_iterate level hne, fun i hi => ⟨stepsFrom_eq_map level hne i,
      div_pow_lt_length hi⟩⟩
  -- node `j` of round `r + 1` pairs the chunk of round `r` that starts at node `2j`
  rw [Function.iterate_succ_apply'] at hj ⊢
  have hchunk : 2 * j < (Merkle.pairUp^[r] level).length := by
    rw [Merkle.length_pairUp] at hj
    omega
  exact ⟨hchunk, Merkle.getD_pairUp _ j hj⟩

/-- Three leaves take two rounds: one round leaves two nodes, the second one. -/
theorem three_leaves_take_two_rounds :
    [Digest.zero, Digest.zero, Digest.zero] ≠ [] ∧
    (Merkle.pairUp^[1] [Digest.zero, Digest.zero, Digest.zero]).length ≠ 1 ∧
    (Merkle.pairUp^[2] [Digest.zero, Digest.zero, Digest.zero]).length = 1 ∧
    (stepsFrom [Digest.zero, Digest.zero, Digest.zero] 2).length = 2 := by
  have hne : [Digest.zero, Digest.zero, Digest.zero] ≠ [] := List.cons_ne_nil _ _
  have hk : max 1 (Nat.clog 2 [Digest.zero, Digest.zero, Digest.zero].length) = 2 := by
    rw [List.length_cons, List.length_cons, List.length_singleton,
      Nat.clog_of_two_le Nat.one_lt_two (by norm_num), Nat.clog_eq_one le_rfl le_rfl]
    rfl
  obtain ⟨-, -, hmid, hlast, -, hsteps⟩ := pairing_rounds_stay_in_bounds _ hne
  rw [hk] at hmid hlast
  refine ⟨hne, hmid 1 Nat.one_pos (by norm_num), hlast, ?_⟩
  rw [(hsteps 2 (by simp)).1, hk, List.length_map, List.length_range]

end WorkLedger.AuditPath
