import WorkLedger.Proofs.AuditPath
import WorkLedger.Proofs.Canonical
import WorkLedger.Proofs.Mining

/-!
# What a block hash names

A block passes the validator only when its stored hash is the hash of its header's fields and
its header's Merkle root is the root of its transactions. So two valid blocks with one hash
hashed their fields to one digest, and their transactions to one root. Where the hash takes
distinct bytes to distinct digests on the bytes actually hashed (`Block.hashInputs`), the
fields have one canonical form, which fixes every field and the text of the difficulty
(`HeaderFields.reread_eq_of_hashableBytes`), and equally many transactions with one root are
the same transactions: pairing rounds over levels of one length meet node by node
(`Merkle.eq_of_pairUp_eq`, `Merkle.eq_of_climb_eq`, `Merkle.eq_of_root_eq`).

Lists of different lengths are another matter. An odd level pairs its last node with itself,
so a list of odd length and the same list with its last transaction repeated have one root
(`Merkle.root_append_getLast`), and a block built from either passes the same checks
(`Validator.check_append_getLast`): the placeholder block and the same header over the
placeholder twice are both valid under one hash, with no two bytes hashed alike.

* `valid_blocks_with_one_hash_agree`: two valid blocks with one hash, under a hash that is
  injective on what they hash, have the same fields up to how the difficulty is written, and
  the same transactions when they have equally many.
* `repeated_transaction_keeps_valid_hash`: the two placeholder blocks.
-/

namespace WorkLedger

/-! ## Canonical bytes fix what they encode -/

/-- The texts of a transaction fit the 64-bit lengths written before them. -/
def Transaction.Fits (t : Transaction) : Prop :=
  Canonical.Fits t.identity ∧ Canonical.Fits (Hex.encode t.publicKey)

theorem Transaction.encode_inj {t t' : Transaction} (ht : t.Fits) (ht' : t'.Fits)
    (h : t.encode = t'.encode) : t = t' := by
  have h₁ := Transaction.decode_encode ht.1 ht.2 ByteArray.empty
  have h₂ := Transaction.decode_encode ht'.1 ht'.2 ByteArray.empty
  rw [h, h₂] at h₁
  exact (Except.ok.inj h₁).symm

/-- Fields with the same hashable bytes agree in every field, the difficulty as its text reads
back. -/
theorem HeaderFields.reread_eq_of_hashableBytes {f f' : HeaderFields} (hf : f.Fits) (hf' : f'.Fits)
    (h : f.hashableBytes = f'.hashableBytes) : f.reread = f'.reread := by
  have h₁ := HeaderFields.reader_hashableBytes hf []
  have h₂ := HeaderFields.reader_hashableBytes hf' []
  rw [h, h₂] at h₁
  exact (Prod.mk.inj (Except.ok.inj h₁)).1.symm

/-- The texts of a block fit the lengths written before them, and its difficulty's scale fits
64 bits. -/
structure Block.Fits (b : Block) : Prop where
  fields : b.header.fields.Fits
  transactions : ∀ t ∈ b.transactions, t.Fits

/-! ## The bytes the Merkle root hashes -/

namespace Merkle

/-- The bytes hashed to combine two nodes: their digests side by side. -/
def pairBytes (a b : Digest) : ByteArray := ByteArray.mk ([a, b].flatMap Digest.bytes).toArray

theorem combine_eq_ofData (a b : Digest) : Digest.combine a b = Digest.ofData (pairBytes a b) :=
  rfl

/-- The bytes hashed by one pairing round. -/
def roundInputs : List Digest → List ByteArray
  | a :: b :: rest => pairBytes a b :: roundInputs rest
  | [a] => [pairBytes a a]
  | [] => []

/-- The bytes hashed by the pairing rounds from `level` up to the root. -/
def climbInputs (level : List Digest) : List ByteArray :=
  roundInputs level ++
    if (pairUp level).length = 1 then []
    else if _h : (pairUp level).length < level.length then climbInputs (pairUp level) else []
termination_by level.length

/-- Every byte string hashed to compute the Merkle root of `txs`: the transactions, then the
pairs of each round. -/
def hashInputs (txs : List Transaction) : List ByteArray :=
  txs.map Transaction.encode ++ climbInputs (leaves txs)

end Merkle

/-- Every byte string hashed to check a block's header hash and Merkle root. -/
def Block.hashInputs (b : Block) : List ByteArray :=
  b.header.fields.hashableBytes :: Merkle.hashInputs b.transactions

namespace Merkle

theorem pairBytes_inj {a b c d : Digest} (ha : a.length = 64) (hc : c.length = 64)
    (h : pairBytes a b = pairBytes c d) : a = c ∧ b = d := by
  simp only [pairBytes, ByteArray.mk.injEq, Array.mk.injEq, List.flatMap_cons,
    List.flatMap_nil, List.append_nil] at h
  obtain ⟨hac, hbd⟩ := List.append_inj h (ha.trans hc.symm)
  exact ⟨by rw [Digest.mk.injEq]; exact hac, by rw [Digest.mk.injEq]; exact hbd⟩

/-- Every node above the leaves is a digest of 64 bytes. -/
theorem length_of_mem_pairUp : ∀ {level : List Digest} {d : Digest}, d ∈ pairUp level →
    d.length = 64
  | _ :: _ :: rest, _, h => by
    rcases List.mem_cons.1 h with rfl | h
    · exact Digest.length_ofData _
    · exact length_of_mem_pairUp h
  | [_], _, h => by
    rw [pairUp, List.mem_singleton] at h
    subst h
    exact Digest.length_ofData _
  | [], _, h => by simp [pairUp] at h

/-- A non-empty level hashes its round, then the rounds above it unless its round leaves one
node. -/
theorem climbInputs_eq {level : List Digest} (hne : level ≠ []) :
    climbInputs level =
      roundInputs level ++ if (pairUp level).length = 1 then [] else climbInputs (pairUp level) := by
  rw [climbInputs]
  by_cases h1 : (pairUp level).length = 1
  · simp [h1]
  · rw [if_neg h1, if_neg h1, dif_pos (length_pairUp_lt h1 hne)]

variable {S : Set ByteArray}

/-- **One round meets node by node.** Two levels of one length and of 64-byte digests that pair
up alike are the same level, as long as the hash is injective on what their rounds hash. The
induction follows the pairing, two nodes at a time. -/
theorem eq_of_pairUp_eq (hS : Set.InjOn Digest.ofData S) :
    ∀ {l l' : List Digest}, l.length = l'.length → (∀ d ∈ l, d.length = 64) →
      (∀ d ∈ l', d.length = 64) → (∀ x ∈ roundInputs l, x ∈ S) →
      (∀ x ∈ roundInputs l', x ∈ S) → pairUp l = pairUp l' → l = l'
  | a :: b :: rest, c :: d :: rest', hlen, h64, h64', hin, hin', h => by
    simp only [pairUp, List.cons.injEq, combine_eq_ofData] at h
    simp only [roundInputs, List.mem_cons] at hin hin'
    -- the first pair hashed alike, so it is the same pair
    have hpair := hS (hin _ (Or.inl rfl)) (hin' _ (Or.inl rfl)) h.1
    obtain ⟨rfl, rfl⟩ := pairBytes_inj (h64 a (by simp)) (h64' c (by simp)) hpair
    have hrest := eq_of_pairUp_eq hS (show rest.length = rest'.length by simpa using hlen)
      (fun x hx => h64 x (by simp [hx])) (fun x hx => h64' x (by simp [hx]))
      (fun x hx => hin x (Or.inr hx)) (fun x hx => hin' x (Or.inr hx)) h.2
    rw [hrest]
  | [a], [c], _, h64, h64', hin, hin', h => by
    simp only [pairUp, List.cons.injEq, and_true, combine_eq_ofData] at h
    simp only [roundInputs, List.mem_singleton] at hin hin'
    obtain ⟨rfl, -⟩ := pairBytes_inj (h64 a (by simp)) (h64' c (by simp))
      (hS (hin _ rfl) (hin' _ rfl) h)
    rfl
  | [], [], _, _, _, _, _, _ => rfl
  | _ :: _ :: _, [_], hlen, _, _, _, _, _ => by simp at hlen
  | _ :: _ :: _, [], hlen, _, _, _, _, _ => by simp at hlen
  | [_], _ :: _ :: _, hlen, _, _, _, _, _ => by simp at hlen
  | [_], [], hlen, _, _, _, _, _ => by simp at hlen
  | [], _ :: _, hlen, _, _, _, _, _ => by simp at hlen

/-- **The climb meets level by level.** Two levels of one length and of 64-byte digests that
climb to one root are the same level, as long as the hash is injective on what their climbs
hash. The induction is on the length: one round, then the rounds above it, which start from
a shorter level. -/
theorem eq_of_climb_eq (hS : Set.InjOn Digest.ofData S) :
    ∀ (n : Nat) {l l' : List Digest}, l.length = n → l'.length = n → (∀ d ∈ l, d.length = 64) →
      (∀ d ∈ l', d.length = 64) → (∀ x ∈ climbInputs l, x ∈ S) →
      (∀ x ∈ climbInputs l', x ∈ S) → climb l = climb l' → l = l' := by
  intro n
  induction n using Nat.strong_induction_on with
  | _ n ih =>
    intro l l' hl hl' h64 h64' hin hin' h
    by_cases hnil : l = []
    · subst hnil
      exact (List.length_eq_zero_iff.1 (hl'.trans hl.symm)).symm
    have hne : l ≠ [] := hnil
    have hne' : l' ≠ [] := by
      rintro rfl
      simp only [List.length_nil] at hl'
      exact hne (List.length_eq_zero_iff.1 (hl.trans hl'.symm))
    have hround : ∀ x ∈ roundInputs l, x ∈ S := fun x hx =>
      hin x (by rw [climbInputs_eq hne]; exact List.mem_append_left _ hx)
    have hround' : ∀ x ∈ roundInputs l', x ∈ S := fun x hx =>
      hin' x (by rw [climbInputs_eq hne']; exact List.mem_append_left _ hx)
    have hnext : (pairUp l).length = (pairUp l').length := by
      rw [length_pairUp, length_pairUp, hl, hl']
    -- it is enough that the next levels agree
    suffices hup : pairUp l = pairUp l' from
      eq_of_pairUp_eq hS (hl.trans hl'.symm) h64 h64' hround hround' hup
    rw [climb_eq hne, climb_eq hne'] at h
    by_cases h1 : (pairUp l).length = 1
    · -- the round leaves one node: the root itself
      rw [dif_pos h1, dif_pos (hnext ▸ h1)] at h
      obtain ⟨d, hd⟩ := List.length_eq_one_iff.1 h1
      obtain ⟨d', hd'⟩ := List.length_eq_one_iff.1 (hnext ▸ h1)
      simp only [hd, hd', List.getElem_cons_zero] at h
      rw [hd, hd', h]
    · -- the rounds above start from the next levels, which are shorter
      rw [dif_neg h1, dif_neg (hnext ▸ h1)] at h
      have hlt := length_pairUp_lt h1 hne
      refine ih _ (hl ▸ hlt) rfl hnext.symm (fun _ hd => length_of_mem_pairUp hd)
        (fun _ hd => length_of_mem_pairUp hd) (fun x hx => hin x ?_) (fun x hx => hin' x ?_) h
      · rw [climbInputs_eq hne, if_neg h1]
        exact List.mem_append_right _ hx
      · rw [climbInputs_eq hne', if_neg (hnext ▸ h1)]
        exact List.mem_append_right _ hx

/-- **Equally many transactions with one root are the same transactions**, as long as the hash
is injective on what their roots hash and their texts fit. -/
theorem eq_of_root_eq (hS : Set.InjOn Digest.ofData S) {txs txs' : List Transaction}
    (hlen : txs.length = txs'.length) (hf : ∀ t ∈ txs, t.Fits) (hf' : ∀ t ∈ txs', t.Fits)
    (hin : ∀ x ∈ hashInputs txs, x ∈ S) (hin' : ∀ x ∈ hashInputs txs', x ∈ S)
    (h : root txs = root txs') : txs = txs' := by
  have hleaf : ∀ {ts : List Transaction}, ∀ d ∈ leaves ts, d.length = 64 := by
    intro ts d hd
    obtain ⟨t, -, rfl⟩ := List.mem_map.1 hd
    exact Digest.length_ofData _
  have hleaves : leaves txs = leaves txs' :=
    eq_of_climb_eq hS txs.length (length_leaves txs) (by rw [length_leaves, hlen]) hleaf hleaf
      (fun x hx => hin x (List.mem_append_right _ hx))
      (fun x hx => hin' x (List.mem_append_right _ hx)) h
  refine List.ext_getElem hlen fun i hi hi' => ?_
  -- each leaf hashed one transaction's bytes, so the bytes and then the transactions agree
  have hhash : txs[i].hash = txs'[i].hash := by
    have := congrArg (·[i]?) hleaves
    simpa [leaves, hi, hi'] using this
  have henc : txs[i].encode = txs'[i].encode :=
    hS (hin _ (List.mem_append_left _ (List.mem_map_of_mem (List.getElem_mem hi))))
      (hin' _ (List.mem_append_left _ (List.mem_map_of_mem (List.getElem_mem hi')))) hhash
  exact Transaction.encode_inj (hf _ (List.getElem_mem hi)) (hf' _ (List.getElem_mem hi')) henc

/-! ## An odd level and its last node repeated -/

/-- A level of odd length pairs up as it does with its last node repeated. -/
theorem pairUp_append_getLast : ∀ (l : List Digest) (hne : l ≠ []), l.length % 2 = 1 →
    pairUp (l ++ [l.getLast hne]) = pairUp l
  | [_], _, _ => rfl
  | a :: b :: rest, _, hodd => by
    have hrest : rest ≠ [] := by
      rintro rfl
      simp at hodd
    have ih := pairUp_append_getLast rest hrest (by simp only [List.length_cons] at hodd; omega)
    rw [List.getLast_cons_cons, List.getLast_cons hrest, List.cons_append, List.cons_append,
      pairUp, pairUp, ih]
  | [], hne, _ => absurd rfl hne

/-- **A list of odd length and the same list with its last transaction repeated have one
Merkle root**, whatever the hash. -/
theorem root_append_getLast {txs : List Transaction} (hne : txs ≠ []) (hodd : txs.length % 2 = 1) :
    root (txs ++ [txs.getLast hne]) = root txs := by
  have hl : leaves txs ≠ [] := by simpa [leaves] using hne
  have hlast : leaves (txs ++ [txs.getLast hne]) = leaves txs ++ [(leaves txs).getLast hl] := by
    simp [leaves, List.getLast_map]
  have hup := pairUp_append_getLast (leaves txs) hl (by rw [length_leaves]; exact hodd)
  rw [root, root, hlast, climb_eq (by simp), climb_eq hl]
  simp only [hup]

end Merkle

/-- A block whose transactions are of odd length passes the validator exactly as the block with
its last transaction repeated: the validator reads the transactions only through their root. -/
theorem Validator.check_append_getLast (v : Validator) (h : Header) {txs : List Transaction}
    (hne : txs ≠ []) (hodd : txs.length % 2 = 1) (previous : Option Header) (checkTime : Bool)
    (now : Int64) (window : List Header) :
    v.check ⟨h, txs ++ [txs.getLast hne]⟩ previous checkTime now window =
      v.check ⟨h, txs⟩ previous checkTime now window := by
  simp only [Validator.check, Merkle.root_append_getLast hne hodd]

/-! ## Two valid blocks with one hash -/

/-- A valid block's hash is the digest of its hashable bytes. -/
theorem Validator.hash_of_check {v : Validator} {b : Block} {previous : Option Header}
    {checkTime : Bool} {now : Int64} {window : List Header}
    (h : v.check b previous checkTime now window = .ok ()) :
    b.hash = Digest.ofData b.header.fields.hashableBytes :=
  ((Validator.check_eq_ok_iff _ _ _ _ _ _).1 h).2.2.1.symm

/-- A valid block's transactions hash to its header's Merkle root. -/
theorem Validator.root_of_check {v : Validator} {b : Block} {previous : Option Header}
    {checkTime : Bool} {now : Int64} {window : List Header}
    (h : v.check b previous checkTime now window = .ok ()) :
    Merkle.root b.transactions = b.header.merkleRoot :=
  ((Validator.check_eq_ok_iff _ _ _ _ _ _).1 h).1

/-- **A block hash names one header and, for a given number of transactions, one block.** Two
blocks that pass the validator, each under any settings, chain, previous header, window and
clock, and that carry one hash, under a hash that is injective on the bytes their checks hash:
their fields agree once the difficulty is read back from its text, the difficulties are written
alike, the stored hashes and the Merkle roots agree, and equally many transactions are the same
transactions. -/
theorem valid_blocks_with_one_hash_agree {v₁ v₂ : Validator} {B₁ B₂ : Block}
    {prev₁ prev₂ : Option Header} {checkTime₁ checkTime₂ : Bool} {now₁ now₂ : Int64}
    {window₁ window₂ : List Header}
    (h₁ : v₁.check B₁ prev₁ checkTime₁ now₁ window₁ = .ok ())
    (h₂ : v₂.check B₂ prev₂ checkTime₂ now₂ window₂ = .ok ())
    (hf₁ : B₁.Fits) (hf₂ : B₂.Fits)
    (hinj : Set.InjOn Digest.ofData {x | x ∈ B₁.hashInputs ++ B₂.hashInputs})
    (hhash : B₁.hash = B₂.hash) :
    B₁.header.fields.reread = B₂.header.fields.reread ∧
      B₁.header.fields.difficulty.toText = B₂.header.fields.difficulty.toText ∧
      B₁.header.hash = B₂.header.hash ∧
      Merkle.root B₁.transactions = Merkle.root B₂.transactions ∧
      (B₁.transactions.length = B₂.transactions.length → B₁.transactions = B₂.transactions) := by
  have hbytes : B₁.header.fields.hashableBytes = B₂.header.fields.hashableBytes := by
    refine hinj (by simp [Block.hashInputs]) (by simp [Block.hashInputs]) ?_
    rw [← Validator.hash_of_check h₁, ← Validator.hash_of_check h₂, hhash]
  have hfields := HeaderFields.reread_eq_of_hashableBytes hf₁.fields hf₂.fields hbytes
  -- the Merkle roots are fields, which reading the difficulty back leaves alone
  have hroot : Merkle.root B₁.transactions = Merkle.root B₂.transactions := by
    rw [Validator.root_of_check h₁, Validator.root_of_check h₂]
    have hm := congrArg HeaderFields.merkleRoot hfields
    exact hm
  refine ⟨hfields, ?_, hhash, hroot, fun hlen => ?_⟩
  · rw [← Decimal.toText_reread, ← Decimal.toText_reread B₂.header.fields.difficulty]
    exact congrArg (fun f => f.difficulty.toText) hfields
  · exact Merkle.eq_of_root_eq hinj hlen hf₁.transactions hf₂.transactions
      (fun x hx => by simp [Block.hashInputs, hx]) (fun x hx => by simp [Block.hashInputs, hx])
      hroot

/-! ## The placeholder, once and twice -/

/-- A lone transaction `t` has the root `combine (hash t) (hash t)`. -/
theorem Merkle.root_singleton (t : Transaction) : Merkle.root [t] = Digest.combine t.hash t.hash := by
  rw [Merkle.root, Merkle.climb]
  rfl

/-- A round that leaves one node hashes only its own pairs. -/
theorem Merkle.climbInputs_of_single {level : List Digest} (hne : level ≠ [])
    (h1 : (pairUp level).length = 1) : climbInputs level = roundInputs level := by
  rw [climbInputs_eq hne, if_pos h1, List.append_nil]

/-- A hash that tells three byte strings apart is injective on them. -/
theorem Digest.injOn_three {a b c : ByteArray} (hab : Digest.ofData a ≠ Digest.ofData b)
    (hac : Digest.ofData a ≠ Digest.ofData c) (hbc : Digest.ofData b ≠ Digest.ofData c) :
    Set.InjOn Digest.ofData {x | x = a ∨ x = b ∨ x = c} := by
  rintro x (rfl | rfl | rfl) y (rfl | rfl | rfl) h
  · rfl
  · exact absurd h hab
  · exact absurd h hac
  · exact absurd h.symm hab
  · rfl
  · exact absurd h hbc
  · exact absurd h.symm hac
  · exact absurd h.symm hbc
  · rfl

/-- Settings that ask no zero bits, so that every digest meets the target of difficulty one. -/
def openParams : ChainParams := ⟨"tessera-test", 1, 2, 10, 0, 600, Decimal.one, 0, 5, 120⟩

/-- The fields of a first block over the placeholder alone, at difficulty one. -/
def placeholderFields : HeaderFields :=
  ⟨1, "tessera-test", 0, Digest.zero, Merkle.root [Transaction.placeholder], 0, Decimal.one, 0, ""⟩

/-- The sealed header over the placeholder, carrying the placeholder `n` times. -/
def placeholderBlock (n : Nat) : Block :=
  ⟨⟨placeholderFields, placeholderFields.hash⟩, List.replicate n Transaction.placeholder⟩

/-- The placeholder once passes every rule at any local time. -/
theorem placeholderBlock_one_passes (now : Int64) :
    Validator.check ⟨openParams, Store.empty⟩ (placeholderBlock 1) none false now [] = .ok () := by
  rw [Validator.check_eq_ok_iff]
  refine ⟨rfl, rfl, rfl, fun h => absurd h (by decide), ?_, fun h => absurd h (by decide)⟩
  show placeholderFields.hash.meets (Target.ofDifficulty openParams Decimal.one) = true
  rw [Target.ofDifficulty_one rfl]
  exact Digest.meets_all_ones (Mining.length_hash _)

/-- The placeholder twice passes as the placeholder once. -/
theorem placeholderBlock_two_passes (now : Int64) :
    Validator.check ⟨openParams, Store.empty⟩ (placeholderBlock 2) none false now [] = .ok () := by
  have h := Validator.check_append_getLast ⟨openParams, Store.empty⟩ (placeholderBlock 1).header
    (List.cons_ne_nil Transaction.placeholder []) rfl none false now []
  exact h.trans (placeholderBlock_one_passes now)

/-- The text of a digest of 64 bytes fits the length written before it. -/
theorem Digest.fits_hex {d : Digest} (h : d.length = 64) : Canonical.Fits d.hex := by
  rw [Canonical.Fits, Digest.hex, Hex.utf8ByteSize_encode]
  rw [Digest.length] at h
  omega

theorem placeholderFields_fits : placeholderFields.Fits where
  chainName := by unfold Canonical.Fits; decide
  previousHash := Digest.fits_hex (by simp [placeholderFields, Digest.zero, Digest.width, Digest.length])
  merkleRoot := by
    rw [placeholderFields, Merkle.root_singleton, Merkle.combine_eq_ofData]
    exact Digest.fits_hex (Digest.length_ofData _)
  difficulty := by unfold Canonical.Fits; decide
  scale := by decide
  minerSignature := by unfold Canonical.Fits; decide

theorem placeholder_fits : Transaction.placeholder.Fits := by
  refine ⟨by unfold Canonical.Fits; decide, ?_⟩
  rw [Canonical.Fits, Hex.utf8ByteSize_encode]
  simp [Transaction.placeholder]

theorem placeholderBlock_fits (n : Nat) : (placeholderBlock n).Fits := by
  refine ⟨placeholderFields_fits, fun t ht => ?_⟩
  rw [List.eq_of_mem_replicate ht]
  exact placeholder_fits

/-! Each digest below is worked out in a declaration of its own, from the bytes of the one it
is built over, so that no kernel check runs SHA-512 over the whole chain of them. -/

/-- The placeholder's digest. -/
theorem placeholder_hash_bytes : Transaction.placeholder.hash = ⟨[213, 166, 55, 150, 201, 98, 24,
    57, 49, 213, 64, 194, 40, 12, 181, 149, 245, 143, 226, 65, 236, 162, 236, 226, 9, 1, 253, 42,
    240, 250, 177, 142, 215, 233, 125, 96, 149, 168, 143, 77, 243, 3, 77, 11, 16, 103, 121, 229,
    40, 207, 142, 166, 227, 245, 229, 85, 143, 192, 21, 234, 136, 152, 43, 207]⟩ := by
  decide +kernel

/-- The root over the placeholder alone: its digest paired with itself. -/
theorem placeholder_root_bytes : Merkle.root [Transaction.placeholder] = ⟨[99, 204, 139, 132, 68,
    233, 89, 192, 182, 169, 188, 69, 177, 133, 117, 113, 200, 142, 221, 182, 141, 81, 64, 202, 45,
    37, 41, 132, 18, 219, 56, 46, 74, 79, 182, 84, 108, 136, 200, 163, 154, 206, 238, 37, 9, 71,
    253, 162, 13, 87, 225, 157, 146, 170, 169, 14, 188, 185, 9, 163, 186, 214, 73, 126]⟩ := by
  rw [Merkle.root_singleton, Merkle.combine_eq_ofData, placeholder_hash_bytes]
  decide +kernel

/-- The header's digest starts with a byte that neither digest above starts with. -/
theorem placeholderFields_hash_head : placeholderFields.hash.bytes.head? = some 34 := by
  rw [placeholderFields, placeholder_root_bytes]
  decide +kernel

/-- The three digests that checking the placeholder blocks computes are distinct: the
placeholder's, the root's and the header's. -/
theorem placeholder_digests_distinct :
    Transaction.placeholder.hash ≠ Merkle.root [Transaction.placeholder] ∧
      Transaction.placeholder.hash ≠ placeholderFields.hash ∧
      Merkle.root [Transaction.placeholder] ≠ placeholderFields.hash := by
  -- the header's digest is told apart from the others by its first byte alone
  have hhead : ∀ {d : Digest}, d.bytes.head? ≠ some 34 → d ≠ placeholderFields.hash :=
    fun hd he => hd (he ▸ placeholderFields_hash_head)
  rw [placeholder_hash_bytes, placeholder_root_bytes]
  exact ⟨by decide, hhead (by decide), hhead (by decide)⟩

/-- Checking the placeholder once hashes the header, the placeholder, and its digest twice
over. -/
theorem placeholderBlock_one_hashInputs :
    (placeholderBlock 1).hashInputs = [placeholderFields.hashableBytes,
      Transaction.placeholder.encode,
      Merkle.pairBytes Transaction.placeholder.hash Transaction.placeholder.hash] := by
  rw [Block.hashInputs, Merkle.hashInputs,
    Merkle.climbInputs_of_single (by simp [placeholderBlock, Merkle.leaves]) rfl]
  rfl

/-- Checking the placeholder twice hashes the same, the placeholder twice. -/
theorem placeholderBlock_two_hashInputs :
    (placeholderBlock 2).hashInputs = [placeholderFields.hashableBytes,
      Transaction.placeholder.encode, Transaction.placeholder.encode,
      Merkle.pairBytes Transaction.placeholder.hash Transaction.placeholder.hash] := by
  rw [Block.hashInputs, Merkle.hashInputs,
    Merkle.climbInputs_of_single (by simp [placeholderBlock, Merkle.leaves]) rfl]
  rfl

/-- The hash is injective on everything the two placeholder blocks hash. -/
theorem placeholder_hashInputs_injOn {m n : Nat} (hm : m = 1 ∨ m = 2) (hn : n = 1 ∨ n = 2) :
    Set.InjOn Digest.ofData
      {x | x ∈ (placeholderBlock m).hashInputs ++ (placeholderBlock n).hashInputs} := by
  obtain ⟨d₁, d₂, d₃⟩ := placeholder_digests_distinct
  rw [Merkle.root_singleton, Merkle.combine_eq_ofData] at d₁ d₃
  -- every byte string hashed is one of three, and their digests are the three above
  have hthree : ∀ k, (k = 1 ∨ k = 2) → ∀ x ∈ (placeholderBlock k).hashInputs,
      x = placeholderFields.hashableBytes ∨ x = Transaction.placeholder.encode ∨
        x = Merkle.pairBytes Transaction.placeholder.hash Transaction.placeholder.hash := by
    rintro k (rfl | rfl) x hx
    · simpa [placeholderBlock_one_hashInputs] using hx
    · simpa [placeholderBlock_two_hashInputs, or_assoc] using hx
  refine (Digest.injOn_three (Ne.symm d₂) (Ne.symm d₃) d₁).mono fun x hx => ?_
  rcases List.mem_append.1 hx with hx | hx
  · exact hthree m hm x hx
  · exact hthree n hn x hx

/-- **The placeholder once and twice: two valid blocks under one hash.** The first block over
the placeholder, and the same header over the placeholder twice, both pass every rule; they
carry one hash, the hash takes no two distinct bytes they hash to one digest, and their
transactions differ. -/
theorem repeated_transaction_keeps_valid_hash :
    (∀ now, Validator.check ⟨openParams, Store.empty⟩ (placeholderBlock 1) none false now [] =
        .ok ()) ∧
      (∀ now, Validator.check ⟨openParams, Store.empty⟩ (placeholderBlock 2) none false now [] =
        .ok ()) ∧
      (placeholderBlock 1).hash = (placeholderBlock 2).hash ∧
      Set.InjOn Digest.ofData
        {x | x ∈ (placeholderBlock 1).hashInputs ++ (placeholderBlock 2).hashInputs} ∧
      (placeholderBlock 1).transactions ≠ (placeholderBlock 2).transactions :=
  ⟨placeholderBlock_one_passes, placeholderBlock_two_passes, rfl,
    placeholder_hashInputs_injOn (Or.inl rfl) (Or.inr rfl), by decide⟩

/-- The two placeholder blocks meet the conditions: they agree in their fields, their hash and
their root, and differ in their number of transactions. The block with the placeholder twice,
checked at two clocks, has as many transactions as itself, and the same ones. -/
theorem valid_blocks_with_one_hash_agree_at_placeholder :
    (Validator.check ⟨openParams, Store.empty⟩ (placeholderBlock 1) none false 0 [] = .ok () ∧
      Validator.check ⟨openParams, Store.empty⟩ (placeholderBlock 2) none false 0 [] = .ok () ∧
      (placeholderBlock 1).Fits ∧ (placeholderBlock 2).Fits ∧
      Set.InjOn Digest.ofData
        {x | x ∈ (placeholderBlock 1).hashInputs ++ (placeholderBlock 2).hashInputs} ∧
      (placeholderBlock 1).hash = (placeholderBlock 2).hash ∧
      (placeholderBlock 1).header.fields.reread = (placeholderBlock 2).header.fields.reread ∧
      (placeholderBlock 1).header.fields.difficulty.toText =
        (placeholderBlock 2).header.fields.difficulty.toText ∧
      (placeholderBlock 1).header.hash = (placeholderBlock 2).header.hash ∧
      Merkle.root (placeholderBlock 1).transactions = Merkle.root (placeholderBlock 2).transactions ∧
      ((placeholderBlock 1).transactions.length = (placeholderBlock 2).transactions.length →
        (placeholderBlock 1).transactions = (placeholderBlock 2).transactions)) ∧
    (Validator.check ⟨openParams, Store.empty⟩ (placeholderBlock 2) none false 0 [] = .ok () ∧
      Validator.check ⟨openParams, Store.empty⟩ (placeholderBlock 2) none false 7 [] = .ok () ∧
      (placeholderBlock 2).Fits ∧
      Set.InjOn Digest.ofData
        {x | x ∈ (placeholderBlock 2).hashInputs ++ (placeholderBlock 2).hashInputs} ∧
      (placeholderBlock 2).transactions.length = (placeholderBlock 2).transactions.length ∧
      (placeholderBlock 2).header.fields.reread = (placeholderBlock 2).header.fields.reread ∧
      (placeholderBlock 2).header.fields.difficulty.toText =
        (placeholderBlock 2).header.fields.difficulty.toText ∧
      (placeholderBlock 2).header.hash = (placeholderBlock 2).header.hash ∧
      Merkle.root (placeholderBlock 2).transactions = Merkle.root (placeholderBlock 2).transactions ∧
      ((placeholderBlock 2).transactions.length = (placeholderBlock 2).transactions.length →
        (placeholderBlock 2).transactions = (placeholderBlock 2).transactions)) :=
  ⟨⟨placeholderBlock_one_passes 0, placeholderBlock_two_passes 0, placeholderBlock_fits 1,
    placeholderBlock_fits 2, placeholder_hashInputs_injOn (Or.inl rfl) (Or.inr rfl), rfl,
    valid_blocks_with_one_hash_agree (placeholderBlock_one_passes 0) (placeholderBlock_two_passes 0)
      (placeholderBlock_fits 1) (placeholderBlock_fits 2)
      (placeholder_hashInputs_injOn (Or.inl rfl) (Or.inr rfl)) rfl⟩,
  ⟨placeholderBlock_two_passes 0, placeholderBlock_two_passes 7, placeholderBlock_fits 2,
    placeholder_hashInputs_injOn (Or.inr rfl) (Or.inr rfl), rfl,
    valid_blocks_with_one_hash_agree (placeholderBlock_two_passes 0) (placeholderBlock_two_passes 7)
      (placeholderBlock_fits 2) (placeholderBlock_fits 2)
      (placeholder_hashInputs_injOn (Or.inr rfl) (Or.inr rfl)) rfl⟩⟩

end WorkLedger
