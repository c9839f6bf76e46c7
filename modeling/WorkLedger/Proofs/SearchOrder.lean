import WorkLedger.Proofs.Mining

/-!
# The order in which a search tries its candidates

A search counts through the candidates of a template like a two-digit counter: the nonce is
the low digit, running through all `2^32` values, and the timestamp the high one, moving on by
a millisecond at each turn of the nonce. The `k`-th candidate (`Mining.candidate`) therefore
has nonce `k mod 2^32` and is `⌊k / 2^32⌋` milliseconds later than the template, every other
field untouched; the template's own nonce plays no part.

One attempt moves from the `k`-th candidate to the next (`Mining.bump_candidate`), so a search
from the `i`-th candidate takes the first candidate from there on whose hash meets the target,
after one question per attempt (`Mining.searchFrom_candidate`). From the template this is the
closed form `Mining.solve_eq`, and `Mining.solve_takes_first_candidate` reads it off: a solved
header is the least candidate that meets the target, sealed with its own hash, found after one
yes-answer per candidate up to it; a search that gives up has asked for every answer it was
allotted and one more, and no candidate it tried meets the target.
-/

namespace WorkLedger.Mining

/-- The `k`-th candidate of a template: nonce `k` in 32 bits, and one millisecond later for
each full turn of the nonce (in the 64-bit words of timestamps). -/
def candidate (template : HeaderFields) (k : Nat) : HeaderFields :=
  { template with nonce := UInt32.ofNat k,
                  timestamp := template.timestamp + Int64.ofNat (k / 2 ^ 32) }

theorem candidate_zero (template : HeaderFields) :
    candidate template 0 = { template with nonce := 0 } := by
  simp [candidate]

/-- **One attempt counts one candidate on.** The nonce wraps from `2^32 - 1` to zero exactly
when `k + 1` starts a new turn, which is when the timestamp moves on. -/
theorem bump_candidate (template : HeaderFields) (k : Nat) :
    HeaderFields.bump (candidate template k) = candidate template (k + 1) := by
  unfold HeaderFields.bump candidate
  split
  · rename_i hwrap
    have hk : k % 2 ^ 32 = 2 ^ 32 - 1 := by
      simpa using (UInt32.ofNat_eq_iff_mod_eq_toNat k 0xFFFFFFFF).1 hwrap
    have hnonce : UInt32.ofNat (k + 1) = 0 := by
      rw [UInt32.ofNat_eq_iff_mod_eq_toNat]
      simp
      omega
    have hturn : (k + 1) / 2 ^ 32 = k / 2 ^ 32 + 1 := by omega
    simp only [hnonce, hturn, Int64.ofNat_add, Int64.add_assoc]
    rfl
  · rename_i hwrap
    have hk : k % 2 ^ 32 ≠ 2 ^ 32 - 1 := by
      intro h
      apply hwrap
      rw [UInt32.ofNat_eq_iff_mod_eq_toNat]
      simpa using h
    have hturn : (k + 1) / 2 ^ 32 = k / 2 ^ 32 := by omega
    simp only [hturn, UInt32.ofNat_add]
    rfl

/-- The nonce of the `k`-th candidate is `k` modulo `2^32`. -/
theorem nonce_candidate (template : HeaderFields) (k : Nat) :
    (candidate template k).nonce.toNat = k % 2 ^ 32 := by
  simp [candidate]

/-- While it stays within 64 bits, the timestamp of the `k`-th candidate is the template's
plus the turns of the nonce. -/
theorem timestamp_candidate {template : HeaderFields} {k : Nat}
    (hk : template.timestamp.toInt + (k / 2 ^ 32 : Nat) < 2 ^ 63) :
    (candidate template k).timestamp.toInt = template.timestamp.toInt + (k / 2 ^ 32 : Nat) := by
  have hlo := template.timestamp.le_toInt
  have hsize : (Int64.size : Int) = 2 ^ 64 := rfl
  simp only [candidate, Int64.toInt_add, Int64.toInt_ofNat', Int.add_bmod_bmod]
  exact Int.bmod_eq_of_le (by omega) (by omega)

/-- **The search loop.** From the `i`-th candidate with `budget` yes-answers left, having
asked `asked` questions, a search takes the first candidate from there on that meets the
target, asking once more for it and once for each candidate before it; with none among the
next `budget`, it asks every remaining question and one more. -/
theorem searchFrom_candidate (template : HeaderFields) (target : Digest) (budget asked i : Nat) :
    searchFrom target budget asked (candidate template i) =
      match (List.range budget).find? fun j => (candidate template (i + j)).hash.meets target with
      | some j =>
        ⟨some ⟨candidate template (i + j), (candidate template (i + j)).hash⟩, asked + j + 1⟩
      | none => ⟨none, asked + budget + 1⟩ := by
  induction budget generalizing asked i with
  | zero => rfl
  | succ budget ih =>
    rw [List.range_succ_eq_map, List.find?_cons, searchFrom]
    by_cases hm : (candidate template i).hash.meets target = true
    · simp [hm]
    · -- a miss: the rest of the search starts one candidate on, with one question more asked
      have hshift : ((fun j => (candidate template (i + j)).hash.meets target) ∘ fun j => j + 1) =
          fun j => (candidate template (i + 1 + j)).hash.meets target := by
        funext j
        simp only [Function.comp, Nat.add_assoc, Nat.add_comm 1 j]
      simp only [Nat.add_zero, hm, Bool.false_eq_true, if_false, List.find?_map, bump_candidate,
        ih (asked + 1) (i + 1), hshift]
      cases (List.range budget).find? fun j => (candidate template (i + 1 + j)).hash.meets target with
      | none =>
        simp only [Option.map_none]
        congr 1
        omega
      | some j =>
        have hj : i + 1 + j = i + (j + 1) := by omega
        simp only [Option.map_some, hj]
        congr 1
        omega

/-- **The search in closed form.** -/
theorem solve_eq (template : HeaderFields) (target : Digest) (budget : Nat) :
    solve template target budget =
      match (List.range budget).find? fun k => (candidate template k).hash.meets target with
      | some k => ⟨some ⟨candidate template k, (candidate template k).hash⟩, k + 1⟩
      | none => ⟨none, budget + 1⟩ := by
  rw [solve, ← candidate_zero, searchFrom_candidate]
  simp only [Nat.zero_add]

/-- **A search takes the first candidate that meets the target.** The template's nonce is
ignored, and the `k`-th candidate has nonce `k mod 2^32` and, while it stays within 64 bits,
the timestamp `⌊k / 2^32⌋` milliseconds after the template's. A solved header is the least
candidate whose hash meets the target, sealed with that hash, after `k + 1` questions all
answered yes; a search that returns nothing asked `budget + 1` questions, the last answered
no, and none of the `budget` candidates it tried meets the target. -/
theorem solve_takes_first_candidate (template : HeaderFields) (target : Digest) (budget : Nat) :
    (∀ n, solve { template with nonce := n } target budget = solve template target budget) ∧
    (∀ k, template.timestamp.toInt + (k / 2 ^ 32 : Nat) < 2 ^ 63 →
      (candidate template k).nonce.toNat = k % 2 ^ 32 ∧
      (candidate template k).timestamp.toInt = template.timestamp.toInt + (k / 2 ^ 32 : Nat)) ∧
    (∀ h, (solve template target budget).header = some h →
      ∃ k, h = ⟨candidate template k, (candidate template k).hash⟩ ∧
        (candidate template k).hash.meets target = true ∧
        (∀ j < k, (candidate template j).hash.meets target = false) ∧
        (solve template target budget).polls = k + 1 ∧ k < budget) ∧
    ((solve template target budget).header = none →
      (solve template target budget).polls = budget + 1 ∧
        ∀ j < budget, (candidate template j).hash.meets target = false) := by
  refine ⟨fun _ => rfl, fun k hk => ⟨nonce_candidate template k, timestamp_candidate hk⟩, ?_, ?_⟩
  · intro h hs
    rw [solve_eq] at hs ⊢
    cases hf : (List.range budget).find? fun k => (candidate template k).hash.meets target with
    | none => simp [hf] at hs
    | some k =>
      obtain ⟨hmeets, hmem, hfirst⟩ := List.find?_range_eq_some.1 hf
      simp only [hf, Option.some.injEq] at hs
      exact ⟨k, hs.symm, hmeets, fun j hj => by simpa using hfirst j hj, rfl,
        List.mem_range.1 hmem⟩
  · intro hs
    rw [solve_eq] at hs ⊢
    cases hf : (List.range budget).find? fun k => (candidate template k).hash.meets target with
    | some k => simp [hf] at hs
    | none =>
      refine ⟨rfl, fun j hj => ?_⟩
      simpa using List.find?_range_eq_none.1 hf j hj

/-- A template carrying a stray nonce, at the first millisecond. -/
def strayNonceTemplate : HeaderFields :=
  ⟨1, "tessera-test", 0, Digest.zero, Digest.zero, 0, Decimal.one, 7, ""⟩

/-- Against the all-ones target the first candidate, with nonce zero, is taken at the first
question, and a search allotted no answers asks once. -/
theorem solve_takes_first_candidate_at_widest_target :
    (solve strayNonceTemplate ⟨List.replicate 64 255⟩ 1).header =
        some ⟨candidate strayNonceTemplate 0, (candidate strayNonceTemplate 0).hash⟩ ∧
      (solve strayNonceTemplate ⟨List.replicate 64 255⟩ 1).polls = 1 ∧
      (candidate strayNonceTemplate 0).nonce.toNat = 0 ∧
      (candidate strayNonceTemplate 0).timestamp.toInt = 0 ∧
      (solve strayNonceTemplate ⟨List.replicate 64 255⟩ 0).polls = 1 := by
  have hone := solve_takes_first_candidate strayNonceTemplate ⟨List.replicate 64 255⟩ 1
  have hzero := solve_takes_first_candidate strayNonceTemplate ⟨List.replicate 64 255⟩ 0
  have hsome : (solve strayNonceTemplate ⟨List.replicate 64 255⟩ 1).header =
      some ⟨candidate strayNonceTemplate 0, (candidate strayNonceTemplate 0).hash⟩ := by
    have hm : (candidate strayNonceTemplate 0).hash.meets ⟨List.replicate 64 255⟩ = true :=
      Digest.meets_all_ones (length_hash _)
    -- the first hit named as such, so that no step makes the kernel run the search itself
    have hf : (List.range 1).find? (fun k => (candidate strayNonceTemplate k).hash.meets
        ⟨List.replicate 64 255⟩) = some 0 :=
      List.find?_range_eq_some.2
        ⟨hm, List.mem_range.2 Nat.one_pos, fun j hj => absurd hj (Nat.not_lt_zero j)⟩
    rw [solve_eq, hf]
  obtain ⟨k, -, -, -, hpolls, hlt⟩ := hone.2.2.1 _ hsome
  obtain ⟨hnonce, htime⟩ := hone.2.1 0 (by decide)
  exact ⟨hsome, by rw [hpolls]; omega, hnonce, htime, (hzero.2.2.2 rfl).1⟩

end WorkLedger.Mining
