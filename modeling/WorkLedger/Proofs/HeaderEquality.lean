import WorkLedger.Proofs.Agreement

/-!
# Header equality and header bytes

Header fields compare equal (`==`) field by field, the difficulty as a decimal; their hashable
bytes carry the difficulty as its text, which also shows its scale. So fields compare equal
exactly when they agree but for the difficulty and the difficulties compare equal
(`HeaderFields.beq_eq_true_iff`), and they have the same hashable bytes exactly when they agree
but for the difficulty and the difficulties have the same text
(`HeaderFields.hashableBytes_eq_iff`).

At one scale a decimal is fixed by its text (`Decimal.eq_of_toText_eq`) and compares equal only
to itself, so there the two notions meet: fields compare equal exactly when their bytes are
equal, and then they are equal (`HeaderFields.beq_iff_hashableBytes_eq`); headers compare
equal exactly when their canonical bytes are (`Header.beq_iff_encode_eq`). Across scales they
part: the difficulty one, written `1` and `1.0`, compares equal while the bytes differ
(`unit_difficulty_written_twice_compares_equal`).
-/

namespace WorkLedger

namespace Decimal

/-- At one scale, two decimals that read back alike are the same. -/
theorem reread_inj_of_scale_eq {d d' : Decimal} (hs : d.scale = d'.scale)
    (h : d.reread = d'.reread) : d = d' := by
  obtain ⟨u, s⟩ := d
  obtain ⟨u', s'⟩ := d'
  dsimp only at hs
  subst hs
  simp only [reread] at h
  by_cases hu : u = 0 <;> by_cases hu' : u' = 0
  · simp [hu, hu']
  · simp only [hu, hu', if_true, if_false] at h
    split_ifs at h <;> simp_all [Decimal.mk.injEq]
  · simp only [hu, hu', if_true, if_false] at h
    split_ifs at h <;> simp_all [Decimal.mk.injEq]
  · simp only [hu, hu', if_false] at h
    split_ifs at h with hk
    · simp only [Decimal.mk.injEq, and_true] at h
      have hp : (10 : Int) ^ s.natAbs ≠ 0 := Int.pow_ne_zero (by decide)
      rw [Int.mul_eq_mul_right_iff hp] at h
      rw [h]
    · exact h

/-- At one scale within 64 bits, a decimal is fixed by its text. -/
theorem eq_of_toText_eq {d d' : Decimal} (hd : -2 ^ 63 ≤ d.scale ∧ d.scale < 2 ^ 63)
    (hd' : -2 ^ 63 ≤ d'.scale ∧ d'.scale < 2 ^ 63) (hs : d.scale = d'.scale)
    (h : d.toText = d'.toText) : d = d' := by
  have h₁ := parse_toText d hd
  rw [h, parse_toText d' hd'] at h₁
  exact reread_inj_of_scale_eq hs (Except.ok.inj h₁).symm

end Decimal

namespace HeaderFields

/-- Fields compare equal when they agree but for the difficulty, and the difficulties compare
equal. -/
theorem beq_eq_true_iff {a b : HeaderFields} :
    (a == b) = true ↔ { a with difficulty := b.difficulty } = b ∧
      (a.difficulty == b.difficulty) = true := by
  obtain ⟨v, c, k, p, root, t, d, o, s⟩ := a
  obtain ⟨v', c', k', p', root', t', d', o', s'⟩ := b
  show instBEqHeaderFields.beq _ _ = true ↔ _
  rw [instBEqHeaderFields.beq.eq_1]
  simp only [Bool.and_eq_true, beq_iff_eq, HeaderFields.mk.injEq]
  tauto

/-- The hashable bytes read the difficulty only through its text. -/
theorem hashableBytes_eq_of_toText {a : HeaderFields} {d : Decimal}
    (h : a.difficulty.toText = d.toText) :
    { a with difficulty := d }.hashableBytes = a.hashableBytes := by
  simp only [hashableBytes, stampBytes, h]

/-- Fields have the same hashable bytes exactly when they agree but for the difficulty, and the
difficulties have the same text. -/
theorem hashableBytes_eq_iff {a b : HeaderFields} (ha : a.Fits) (hb : b.Fits) :
    a.hashableBytes = b.hashableBytes ↔ { a with difficulty := b.difficulty } = b ∧
      a.difficulty.toText = b.difficulty.toText := by
  constructor
  · intro h
    have hr := reread_eq_of_hashableBytes ha hb h
    obtain ⟨v, c, k, p, root, t, d, o, s⟩ := a
    obtain ⟨v', c', k', p', root', t', d', o', s'⟩ := b
    simp only [reread, HeaderFields.mk.injEq] at hr
    obtain ⟨rfl, rfl, rfl, rfl, rfl, rfl, hd, rfl, rfl⟩ := hr
    refine ⟨rfl, ?_⟩
    rw [← Decimal.toText_reread d, hd, Decimal.toText_reread]
  · rintro ⟨hab, htext⟩
    rw [← hab]
    exact (hashableBytes_eq_of_toText htext).symm

/-- At one difficulty scale, fields compare equal exactly when they are equal. -/
theorem eq_of_beq_of_scale_eq {a b : HeaderFields} (hs : a.difficulty.scale = b.difficulty.scale)
    (h : (a == b) = true) : a = b := by
  obtain ⟨hab, hd⟩ := beq_eq_true_iff.1 h
  rw [← (Decimal.beq_iff_eq_of_scale_eq hs).1 hd] at hab
  exact hab

/-- At one difficulty scale, fields compare equal exactly when their hashable bytes are equal. -/
theorem beq_iff_hashableBytes_eq {a b : HeaderFields} (ha : a.Fits) (hb : b.Fits)
    (hs : a.difficulty.scale = b.difficulty.scale) :
    (a == b) = true ↔ a.hashableBytes = b.hashableBytes := by
  rw [beq_eq_true_iff, hashableBytes_eq_iff ha hb, Decimal.beq_iff_eq_of_scale_eq hs]
  exact and_congr_right fun _ =>
    ⟨fun h => h ▸ rfl, Decimal.eq_of_toText_eq ha.scale hb.scale hs⟩

end HeaderFields

namespace Header

/-- Headers compare equal when their fields do and they carry the same hash. -/
theorem beq_iff_fields_beq {h h' : Header} :
    (h == h') = true ↔ (h.fields == h'.fields) = true ∧ h.hash = h'.hash := by
  obtain ⟨f, d⟩ := h
  obtain ⟨f', d'⟩ := h'
  show instBEqHeader.beq _ _ = true ↔ _
  rw [instBEqHeader.beq.eq_1]
  simp only [Bool.and_eq_true, beq_iff_eq]

/-- Headers have the same canonical bytes exactly when their fields have the same hashable bytes
and they carry the same hash. -/
theorem encode_eq_iff {h h' : Header} (hf : h.Fits) (hf' : h'.Fits) :
    h.encode = h'.encode ↔
      h.fields.hashableBytes = h'.fields.hashableBytes ∧ h.hash = h'.hash := by
  constructor
  · intro he
    have hr := Header.reader_encode hf []
    rw [he, Header.reader_encode hf'] at hr
    have hrr := (Prod.mk.inj (Except.ok.inj hr)).1
    simp only [reread, Header.mk.injEq] at hrr
    refine ⟨?_, hrr.2.symm⟩
    rw [← HeaderFields.hashableBytes_reread h.fields, ← HeaderFields.hashableBytes_reread h'.fields,
      hrr.1]
  · rintro ⟨hb, hh⟩
    simp only [encode, hb, hh]

/-- At one difficulty scale, headers compare equal exactly when their canonical bytes are
equal. -/
theorem beq_iff_encode_eq {h h' : Header} (hf : h.Fits) (hf' : h'.Fits)
    (hs : h.fields.difficulty.scale = h'.fields.difficulty.scale) :
    (h == h') = true ↔ h.encode = h'.encode := by
  rw [beq_iff_fields_beq, HeaderFields.beq_iff_hashableBytes_eq hf.fields hf'.fields hs,
    encode_eq_iff hf hf']

end Header

/-- **Header equality and header bytes.** Fields compare equal exactly when they agree but for
the difficulty and the difficulties compare equal as decimals; they have the same hashable bytes
exactly when they agree but for the difficulty and the difficulties have the same text. The two
meet at one difficulty scale: there fields compare equal exactly when their hashable bytes are
equal, and then they are equal, with one hash and one sealed header; headers compare equal
exactly when their canonical bytes are equal, and blocks exactly when their headers' canonical
bytes and their transactions are. -/
theorem header_equality_meets_bytes_at_one_scale :
    (∀ a b : HeaderFields, a.Fits → b.Fits →
      ((a == b) = true ↔ { a with difficulty := b.difficulty } = b ∧
        (a.difficulty == b.difficulty) = true) ∧
      (a.hashableBytes = b.hashableBytes ↔ { a with difficulty := b.difficulty } = b ∧
        a.difficulty.toText = b.difficulty.toText) ∧
      (a.difficulty.scale = b.difficulty.scale →
        ((a == b) = true ↔ a.hashableBytes = b.hashableBytes) ∧
        ((a == b) = true → a.hash = b.hash ∧ a.sealed = b.sealed))) ∧
    (∀ h h' : Header, h.Fits → h'.Fits →
      h.fields.difficulty.scale = h'.fields.difficulty.scale →
      ((h == h') = true ↔ h.encode = h'.encode)) ∧
    (∀ B B' : Block, B.header.Fits → B'.header.Fits →
      B.header.fields.difficulty.scale = B'.header.fields.difficulty.scale →
      ((B == B') = true ↔ B.header.encode = B'.header.encode ∧
        B.transactions = B'.transactions)) := by
  refine ⟨fun a b ha hb => ⟨HeaderFields.beq_eq_true_iff, HeaderFields.hashableBytes_eq_iff ha hb,
    fun hs => ⟨HeaderFields.beq_iff_hashableBytes_eq ha hb hs, fun h => ?_⟩⟩,
    fun h h' hf hf' hs => Header.beq_iff_encode_eq hf hf' hs,
    fun B B' hf hf' hs => ?_⟩
  · obtain rfl := HeaderFields.eq_of_beq_of_scale_eq hs h
    exact ⟨rfl, rfl⟩
  · rw [Block.beq_eq_true_iff, Header.beq_iff_encode_eq hf hf' hs]

/-! ## Across scales -/

/-- The fields of a first header at difficulty one: version one, the test chain, zero digests,
the first millisecond, nonce zero and no signature. -/
def unitFields : HeaderFields :=
  ⟨1, "tessera-test", 0, Digest.zero, Digest.zero, 0, Decimal.one, 0, ""⟩

/-- The same fields with the difficulty written `1.0`. -/
def unitFieldsOnePlace : HeaderFields := { unitFields with difficulty := ⟨10, 1⟩ }

/-- A stored hash of 64 bytes. -/
def storedHash : Digest := ⟨List.replicate 64 0xab⟩

/-- One compares equal to one written with a place after the point. -/
theorem one_beq_one_place : (Decimal.one == (⟨10, 1⟩ : Decimal)) = true := by
  show Decimal.sameValue ⟨1, 0⟩ ⟨10, 1⟩ = true
  simp only [Decimal.sameValue]
  exact Decimal.scaledEqual_mul_pow (by decide : 0 < 1) (by decide : 1 < 20) (by decide)

theorem unitFields_fits : unitFields.Fits where
  chainName := by unfold Canonical.Fits; decide
  previousHash := Digest.fits_hex (by simp [unitFields, Digest.zero, Digest.width, Digest.length])
  merkleRoot := Digest.fits_hex (by simp [unitFields, Digest.zero, Digest.width, Digest.length])
  difficulty := by unfold Canonical.Fits; decide
  scale := by decide
  minerSignature := by unfold Canonical.Fits; decide

theorem unitFieldsOnePlace_fits : unitFieldsOnePlace.Fits :=
  { unitFields_fits with
    difficulty := by unfold Canonical.Fits; decide
    scale := by decide }

/-- **`1` and `1.0`.** Fields with the difficulty one written `1` and `1.0` compare equal, though
their hashable bytes differ; with one stored hash, the headers compare equal, though their
canonical bytes differ. -/
theorem unit_difficulty_written_twice_compares_equal :
    (unitFields == unitFieldsOnePlace) = true ∧
      unitFields.hashableBytes ≠ unitFieldsOnePlace.hashableBytes ∧
      ((⟨unitFields, storedHash⟩ : Header) == ⟨unitFieldsOnePlace, storedHash⟩) = true ∧
      (⟨unitFields, storedHash⟩ : Header).encode ≠ (⟨unitFieldsOnePlace, storedHash⟩ : Header).encode := by
  have hbeq : (unitFields == unitFieldsOnePlace) = true :=
    HeaderFields.beq_eq_true_iff.2 ⟨rfl, one_beq_one_place⟩
  have hbytes : unitFields.hashableBytes ≠ unitFieldsOnePlace.hashableBytes := by
    intro h
    have htext := ((HeaderFields.hashableBytes_eq_iff unitFields_fits unitFieldsOnePlace_fits).1 h).2
    revert htext
    decide
  refine ⟨hbeq, hbytes, Header.beq_iff_fields_beq.2 ⟨hbeq, rfl⟩, fun h => hbytes ?_⟩
  exact ((Header.encode_eq_iff ⟨unitFields_fits, Digest.fits_hex (by simp [storedHash, Digest.length])⟩
    ⟨unitFieldsOnePlace_fits, Digest.fits_hex (by simp [storedHash, Digest.length])⟩).1 h).1

/-- The laws at the difficulty one: fields with it written `1` and `1.0` have the same bytes
exactly when the texts agree, and fields at one scale compare equal to themselves with one hash,
one sealed header and, with one stored hash, one block. -/
theorem header_equality_meets_bytes_at_unit_difficulty :
    (unitFields.hashableBytes = unitFieldsOnePlace.hashableBytes ↔
        { unitFields with difficulty := unitFieldsOnePlace.difficulty } = unitFieldsOnePlace ∧
          unitFields.difficulty.toText = unitFieldsOnePlace.difficulty.toText) ∧
      unitFields.hash = unitFields.hash ∧ unitFields.sealed = unitFields.sealed ∧
      ((⟨⟨unitFields, storedHash⟩, []⟩ : Block) == ⟨⟨unitFields, storedHash⟩, []⟩) = true := by
  have hlaw := header_equality_meets_bytes_at_one_scale
  have hself : (unitFields == unitFields) = true :=
    HeaderFields.beq_eq_true_iff.2 ⟨rfl, Decimal.beq_self _⟩
  have hfits : (⟨unitFields, storedHash⟩ : Header).Fits :=
    ⟨unitFields_fits, Digest.fits_hex (by simp [storedHash, Digest.length])⟩
  obtain ⟨hhash, hseal⟩ := ((hlaw.1 _ _ unitFields_fits unitFields_fits).2.2 rfl).2 hself
  exact ⟨(hlaw.1 _ _ unitFields_fits unitFieldsOnePlace_fits).2.1, hhash, hseal,
    (hlaw.2.2 ⟨⟨unitFields, storedHash⟩, []⟩ ⟨⟨unitFields, storedHash⟩, []⟩ hfits hfits rfl).2
      ⟨rfl, rfl⟩⟩

end WorkLedger
