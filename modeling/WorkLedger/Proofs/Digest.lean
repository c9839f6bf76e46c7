import Mathlib
import WorkLedger.Digest.Basic

/-!
# Digests: their width and the widest target

The bytes of a `ByteArray` read as a list are its data in order (`ByteArray.toList_eq`), which
lets statements about canonical bytes be made on lists. Every digest produced by hashing has
64 bytes (`Digest.length_ofData`), and the target whose 64 bytes are all ones keeps every bit
of such a digest, so each of them meets it (`Digest.meets_all_ones`).
-/

namespace WorkLedger

/-- The loop that lists the bytes from position `i` on, with the bytes before it reversed in
`r`. -/
theorem ByteArray.toList_loop (bs : ByteArray) (i : Nat) (r : List UInt8) :
    ByteArray.toList.loop bs i r = r.reverse ++ bs.data.toList.drop i := by
  induction i, r using ByteArray.toList.loop.induct bs with
  | case1 i r h ih =>
    rw [ByteArray.toList.loop, if_pos h, ih]
    have hi : i < bs.data.toList.length := by simpa using h
    simp [List.drop_eq_getElem_cons hi, ByteArray.get!, h]
  | case2 i r h =>
    rw [ByteArray.toList.loop, if_neg h]
    have hi : bs.data.toList.length ≤ i := by
      rw [Array.length_toList]
      exact Nat.le_of_not_lt h
    rw [List.drop_eq_nil_of_le hi, List.append_nil]

@[simp] theorem ByteArray.toList_eq (bs : ByteArray) : bs.toList = bs.data.toList := by
  simp [ByteArray.toList, ByteArray.toList_loop]

theorem ByteArray.toList_append (a b : ByteArray) : (a ++ b).toList = a.toList ++ b.toList := by
  simp [ByteArray.data_append]

theorem ByteArray.length_toList (bs : ByteArray) : bs.toList.length = bs.size := by
  rw [ByteArray.toList_eq, Array.length_toList]
  rfl

namespace Digest

theorem Sha512.length_wordBytes (w : UInt64) : (Sha512.wordBytes w).length = 8 := by
  simp [Sha512.wordBytes]

/-- The state words are written out eight bytes each, whatever the message. -/
theorem Sha512.size_digest (msg : ByteArray) : (Sha512.digest msg).size = 64 := by
  unfold Sha512.digest
  generalize Nat.fold _ _ _ = s
  simp only [ByteArray.size, List.size_toArray, List.flatMap_cons, List.flatMap_nil,
    List.length_append, length_wordBytes, List.length_nil]

@[simp] theorem length_ofData (data : ByteArray) : (ofData data).length = 64 := by
  have h := Sha512.size_digest (Sha512.digest data)
  simp only [ofData, length, ByteArray.toList_eq, Array.length_toList]
  exact h

theorem zipWith_and_all_ones (l : List UInt8) :
    List.zipWith (· &&& ·) l (List.replicate l.length 255) = l := by
  have hx : ∀ x : UInt8, x &&& 255 = x := by
    intro x
    apply UInt8.toNat_inj.1
    rw [UInt8.toNat_and, show (255 : UInt8).toNat = 2 ^ 8 - 1 from rfl,
      Nat.and_two_pow_sub_one_eq_mod]
    have := x.toNat_lt
    omega
  induction l with
  | nil => rfl
  | cons x xs ih => simp [List.replicate_succ, hx, ih]

/-- A digest of 64 bytes meets the target with every bit set. -/
theorem meets_all_ones {d : Digest} (hd : d.length = 64) :
    d.meets ⟨List.replicate 64 255⟩ = true := by
  have hmask := zipWith_and_all_ones d.bytes
  simp only [length] at hd
  rw [hd] at hmask
  simp only [meets, maskWith, length, List.length_replicate, hd, Nat.sub_self,
    List.replicate_zero, List.drop_zero, List.nil_append, hmask]
  simp

end Digest

end WorkLedger
