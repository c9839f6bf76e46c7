import WorkLedger.Proofs.Utf8
import WorkLedger.Proofs.DecimalText
import WorkLedger.Ledger.Header

/-!
# Canonical bytes read back

Reading undoes writing, field by field, and leaves whatever follows the record untouched:

* hexadecimal text reads back to its bytes (`Hex.decode_encode`), so a digest reads back from
  its text (`Digest.ofHex_hex`);
* a fixed-width integer reads back from its little-endian bytes, and text from its length and
  UTF-8 bytes, as long as the length fits the 64 bits it is written in (`Canonical.Fits`);
* hence a transaction reads back from its canonical bytes (`Transaction.decode_encode`);
* and so does a header (`Header.decode_encode`), except that its difficulty comes back as its
  text reads (`Header.reread`, see `Decimal.reread`): the bytes are the same
  (`Header.encode_reread`), but the difficulty may be another decimal.
-/

namespace WorkLedger

/-! ## Hexadecimal text -/

namespace Hex

theorem toNat_shiftRight_four_lt (b : UInt8) : (b >>> 4).toNat < 16 := by
  rw [UInt8.toNat_shiftRight, show (4 : UInt8).toNat % 8 = 4 from rfl, Nat.shiftRight_eq_div_pow]
  have := b.toNat_lt
  omega

theorem toNat_and_fifteen_lt (b : UInt8) : (b &&& 15).toNat < 16 := by
  rw [UInt8.toNat_and]
  exact Nat.lt_of_le_of_lt Nat.and_le_right (by decide)

set_option maxRecDepth 4000 in
/-- A byte is its high digit shifted up, or-ed with its low digit. -/
theorem shiftLeft_or_and (b : UInt8) : (b >>> 4) <<< 4 ||| (b &&& 15) = b := by
  have h : ∀ n < 256, (UInt8.ofNat n >>> 4) <<< 4 ||| (UInt8.ofNat n &&& 15) = UInt8.ofNat n := by
    decide
  simpa using h b.toNat b.toNat_lt

/-- A digit value is written as one ASCII byte, which reads back to it. -/
theorem digitChar_bytes (v : UInt8) (hv : v.toNat < 16) :
    String.utf8EncodeChar (digitChar v) = [(digitChar v).val.toUInt8] ∧
      digitValue? (digitChar v).val.toUInt8 = some v := by
  have h : ∀ n < 16, (digitChar (UInt8.ofNat n)).val ≤ 127 ∧
      digitValue? (digitChar (UInt8.ofNat n)).val.toUInt8 = some (UInt8.ofNat n) := by
    decide
  obtain ⟨hascii, hval⟩ := h v.toNat hv
  rw [UInt8.ofNat_toNat] at hascii hval
  exact ⟨String.utf8EncodeChar_eq_singleton (Char.utf8Size_eq_one_iff.2 hascii), hval⟩

/-- The digits of one byte, then anything, read as that byte and then the rest. -/
theorem decodePairs_byteChars_append (b : UInt8) (rest : List UInt8) (i : Nat) :
    decodePairs ((byteChars b).flatMap String.utf8EncodeChar ++ rest) i =
      (b :: ·) <$> decodePairs rest (i + 2) := by
  obtain ⟨hx, hvx⟩ := digitChar_bytes _ (toNat_shiftRight_four_lt b)
  obtain ⟨hy, hvy⟩ := digitChar_bytes _ (toNat_and_fifteen_lt b)
  simp only [byteChars, List.flatMap_cons, List.flatMap_nil, hx, hy, List.append_nil,
    List.nil_append, List.cons_append]
  simp only [decodePairs.eq_1, hvx, hvy, shiftLeft_or_and]

/-- The two digits of a byte take two bytes. -/
theorem length_byteChars_bytes (b : UInt8) :
    ((byteChars b).flatMap String.utf8EncodeChar).length = 2 := by
  obtain ⟨hx, -⟩ := digitChar_bytes _ (toNat_shiftRight_four_lt b)
  obtain ⟨hy, -⟩ := digitChar_bytes _ (toNat_and_fifteen_lt b)
  simp [byteChars, hx, hy]

theorem length_flatMap_byteChars (bytes : List UInt8) :
    (bytes.flatMap fun b => (byteChars b).flatMap String.utf8EncodeChar).length =
      2 * bytes.length := by
  induction bytes with
  | nil => rfl
  | cons b bs ih =>
    rw [List.flatMap_cons, List.length_append, length_byteChars_bytes, ih, List.length_cons]
    omega

/-- Hexadecimal text is written as two ASCII digits per byte. -/
theorem toList_toUTF8_encode (bytes : List UInt8) :
    (encode bytes).toUTF8.toList =
      bytes.flatMap fun b => (byteChars b).flatMap String.utf8EncodeChar := by
  rw [Text.Utf8.toList_toUTF8, encode, String.toList_ofList, List.flatMap_assoc]

theorem decodePairs_encode (bytes : List UInt8) (i : Nat) :
    decodePairs (bytes.flatMap fun b => (byteChars b).flatMap String.utf8EncodeChar) i =
      .ok bytes := by
  induction bytes generalizing i with
  | nil => simp [decodePairs]
  | cons b bs ih =>
    rw [List.flatMap_cons, decodePairs_byteChars_append, ih]
    rfl

/-- **Hexadecimal round trip.** The text of some bytes reads back to them. -/
theorem decode_encode (bytes : List UInt8) : decode (encode bytes) = .ok bytes := by
  have hlen : ((encode bytes).toUTF8.toList.length) % 2 = 0 := by
    rw [toList_toUTF8_encode, length_flatMap_byteChars]
    omega
  rw [decode]
  simp only [hlen, Nat.zero_ne_one, if_false]
  rw [toList_toUTF8_encode, decodePairs_encode]

/-- Hexadecimal text has two bytes per byte it writes. -/
theorem utf8ByteSize_encode (bytes : List UInt8) :
    (encode bytes).utf8ByteSize = 2 * bytes.length := by
  rw [← String.size_toByteArray, ← String.toUTF8_eq_toByteArray, ← ByteArray.length_toList,
    toList_toUTF8_encode, length_flatMap_byteChars]

end Hex

/-- A digest reads back from its hexadecimal text. -/
theorem Digest.ofHex_hex (d : Digest) : Digest.ofHex d.hex = .ok d := by
  rw [Digest.ofHex, Digest.hex, Hex.decode_encode]
  rfl

/-! ## Fixed-width integers and text -/

namespace Canonical

/-- Text whose UTF-8 length can be written in the 64 bits that precede it, as the length of
any text held in memory can. -/
def Fits (s : String) : Prop := s.utf8ByteSize < 2 ^ 64

/-- A reader that succeeds hands its value and what it left to the reader after it. -/
theorem bind_ok {α β : Type} {x : Reader α} {f : α → Reader β} {input rest : List UInt8} {a : α}
    (h : x input = .ok (a, rest)) : (x >>= f) input = f a rest := by
  show (x input >>= fun p => f p.1 p.2) = _
  rw [h]
  rfl

theorem littleEndian_succ (width n : Nat) :
    littleEndian (width + 1) n = n.toUInt8 :: littleEndian width (n / 256) := by
  simp only [littleEndian, Nat.pow_eq, List.range_succ_eq_map, List.map_cons, List.map_map,
    Nat.pow_zero, Nat.div_one, List.cons.injEq, true_and]
  refine List.map_congr_left fun i _ => ?_
  simp [Nat.pow_succ, Nat.div_div_eq_div_mul, Nat.mul_comm]

@[simp] theorem length_littleEndian (width n : Nat) : (littleEndian width n).length = width := by
  simp [littleEndian]

/-- Little-endian bytes stand for their number modulo the width. -/
theorem valueOf_littleEndian (width n : Nat) :
    valueOf (littleEndian width n) = n % 256 ^ width := by
  induction width generalizing n with
  | zero => simp [littleEndian, valueOf, Nat.mod_one]
  | succ width ih =>
    rw [littleEndian_succ, valueOf, List.foldr_cons, ← valueOf, ih, Nat.pow_succ', Nat.mod_mul]
    simp [Nat.toUInt8, UInt8.toNat_ofNat']

theorem takeFixed_append (l rest : List UInt8) :
    takeFixed l.length (l ++ rest) = .ok (l, rest) := by
  simp [takeFixed]

theorem toList_u32 (v : UInt32) : (u32 v).toList = littleEndian 4 v.toNat := by
  simp [u32]

theorem toList_u64 (v : UInt64) : (u64 v).toList = littleEndian 8 v.toNat := by
  simp [u64]

theorem readU32_u32 (v : UInt32) (rest : List UInt8) :
    readU32 ((u32 v).toList ++ rest) = .ok (v, rest) := by
  have h := takeFixed_append (littleEndian 4 v.toNat) rest
  have hlt : v.toNat < 256 ^ 4 := v.toNat_lt
  rw [length_littleEndian] at h
  rw [readU32, toList_u32, bind_ok h, valueOf_littleEndian, Nat.mod_eq_of_lt hlt]
  simp [Nat.toUInt32, pure, StateT.pure, Except.pure]

theorem readU64_u64 (v : UInt64) (rest : List UInt8) :
    readU64 ((u64 v).toList ++ rest) = .ok (v, rest) := by
  have h := takeFixed_append (littleEndian 8 v.toNat) rest
  have hlt : v.toNat < 256 ^ 8 := v.toNat_lt
  rw [length_littleEndian] at h
  rw [readU64, toList_u64, bind_ok h, valueOf_littleEndian, Nat.mod_eq_of_lt hlt]
  simp [Nat.toUInt64, pure, StateT.pure, Except.pure]

theorem readI64_i64 (v : Int64) (rest : List UInt8) :
    readI64 ((i64 v).toList ++ rest) = .ok (v, rest) := by
  rw [readI64, i64, bind_ok (readU64_u64 _ rest)]
  simp [pure, StateT.pure, Except.pure]

/-- Text reads back from its length and its UTF-8 bytes, when the length fits. -/
theorem readText_text {s : String} (hs : Fits s) (rest : List UInt8) :
    readText ((text s).toList ++ rest) = .ok (s, rest) := by
  have hsize : s.toUTF8.toList.length = s.utf8ByteSize := by
    rw [ByteArray.length_toList, String.toUTF8_eq_toByteArray, String.size_toByteArray]
  have hlen : (s.toUTF8.size.toUInt64).toNat = s.utf8ByteSize := by
    rw [String.toUTF8_eq_toByteArray, String.size_toByteArray, Nat.toUInt64,
      UInt64.toNat_ofNat', Nat.mod_eq_of_lt hs]
  rw [text, ByteArray.toList_append, List.append_assoc, readText,
    bind_ok (readU64_u64 _ _)]
  simp only [get, getThe, MonadStateOf.get, StateT.get, bind, StateT.bind, hlen, ← hsize]
  simp only [pure, Except.pure, Except.bind, List.length_append]
  rw [if_neg (by omega)]
  simp only [set, List.drop_left, List.take_left, Text.Utf8.decode_toUTF8]
  rfl

end Canonical

/-! ## Transactions -/

open Canonical in
/-- A transaction reads back from the front of its canonical bytes. -/
theorem Transaction.reader_encode {t : Transaction} (hid : Fits t.identity)
    (hkey : Fits (Hex.encode t.publicKey)) (rest : List UInt8) :
    Transaction.reader (t.encode.toList ++ rest) = .ok (t, rest) := by
  simp only [Transaction.encode, ByteArray.toList_append, List.append_assoc]
  rw [Transaction.reader, bind_ok (readU32_u32 _ _), bind_ok (readText_text hid _),
    bind_ok (readU64_u64 _ _), bind_ok (readU64_u64 _ _), bind_ok (readText_text hkey _)]
  simp [Hex.decode_encode, pure, StateT.pure, Except.pure]

/-- A transaction reads back from its canonical bytes, whatever follows them. -/
theorem Transaction.decode_encode {t : Transaction} (hid : Canonical.Fits t.identity)
    (hkey : Canonical.Fits (Hex.encode t.publicKey)) (r : ByteArray) :
    Transaction.decode (t.encode ++ r) = .ok t := by
  rw [Transaction.decode, Canonical.decode, ByteArray.toList_append]
  show ((fun p => p.1) <$> Transaction.reader (t.encode.toList ++ r.toList)).mapError _ = _
  rw [Transaction.reader_encode hid hkey]
  rfl

/-! ## Headers -/

section Headers

open Canonical

/-- The fields as their canonical bytes read back: the difficulty as its text reads back. -/
def HeaderFields.reread (f : HeaderFields) : HeaderFields :=
  { f with difficulty := f.difficulty.reread }

/-- A header as its canonical bytes read back. -/
def Header.reread (h : Header) : Header := { h with fields := h.fields.reread }

/-- Every text of the fields has a length that fits the 64 bits written before it, and the
difficulty's scale fits 64 bits. -/
structure HeaderFields.Fits (f : HeaderFields) : Prop where
  chainName : Canonical.Fits f.chainName
  previousHash : Canonical.Fits f.previousHash.hex
  merkleRoot : Canonical.Fits f.merkleRoot.hex
  difficulty : Canonical.Fits f.difficulty.toText
  scale : -2 ^ 63 ≤ f.difficulty.scale ∧ f.difficulty.scale < 2 ^ 63
  minerSignature : Canonical.Fits f.minerSignature

/-- The fields fit, and so does the text of the hash. -/
structure Header.Fits (h : Header) : Prop where
  fields : h.fields.Fits
  hash : Canonical.Fits h.hash.hex

theorem HeaderFields.readDigest_text {d : Digest} (hd : Canonical.Fits d.hex) (rest : List UInt8) :
    HeaderFields.readDigest ((text d.hex).toList ++ rest) = .ok (d, rest) := by
  rw [HeaderFields.readDigest, bind_ok (readText_text hd rest), Digest.ofHex_hex]
  rfl

theorem HeaderFields.readDecimal_text {d : Decimal} (ht : Canonical.Fits d.toText)
    (hs : -2 ^ 63 ≤ d.scale ∧ d.scale < 2 ^ 63) (rest : List UInt8) :
    HeaderFields.readDecimal ((text d.toText).toList ++ rest) = .ok (d.reread, rest) := by
  rw [HeaderFields.readDecimal, bind_ok (readText_text ht rest), Decimal.parse_toText d hs]
  rfl

theorem HeaderFields.reader_hashableBytes {f : HeaderFields} (hf : f.Fits) (rest : List UInt8) :
    HeaderFields.reader (f.hashableBytes.toList ++ rest) = .ok (f.reread, rest) := by
  simp only [HeaderFields.hashableBytes, HeaderFields.stampBytes, ByteArray.toList_append,
    List.append_assoc]
  rw [HeaderFields.reader, bind_ok (readU32_u32 _ _), bind_ok (readText_text hf.chainName _),
    bind_ok (readU64_u64 _ _), bind_ok (HeaderFields.readDigest_text hf.previousHash _),
    bind_ok (HeaderFields.readDigest_text hf.merkleRoot _), bind_ok (readI64_i64 _ _),
    bind_ok (HeaderFields.readDecimal_text hf.difficulty hf.scale _), bind_ok (readU32_u32 _ _),
    bind_ok (readText_text hf.minerSignature _)]
  rfl

theorem Header.reader_encode {h : Header} (hf : h.Fits) (rest : List UInt8) :
    Header.reader (h.encode.toList ++ rest) = .ok (h.reread, rest) := by
  rw [Header.encode, ByteArray.toList_append, List.append_assoc, Header.reader,
    bind_ok (HeaderFields.reader_hashableBytes hf.fields _),
    bind_ok (HeaderFields.readDigest_text hf.hash _)]
  rfl

/-- A difficulty read back writes the same text, so the bytes are the same. -/
theorem HeaderFields.hashableBytes_reread (f : HeaderFields) :
    f.reread.hashableBytes = f.hashableBytes := by
  simp only [HeaderFields.hashableBytes, HeaderFields.stampBytes, HeaderFields.reread,
    Decimal.toText_reread]

theorem Header.encode_reread (h : Header) : h.reread.encode = h.encode := by
  simp only [Header.encode, Header.reread, HeaderFields.hashableBytes_reread]

theorem HeaderFields.checkSignature_eq_ok {f : HeaderFields} (hs : f.minerSignature.length ≤ 50) :
    f.checkSignature = .ok () := by
  rw [HeaderFields.checkSignature, if_neg (by unfold HeaderFields.maxSignatureLength; omega)]

/-- **Header round trip.** A header whose signature has at most fifty characters reads back
from its canonical bytes, whatever follows them, with its difficulty as its text reads back. -/
theorem Header.decode_encode {h : Header} (hf : h.Fits) (hs : h.fields.minerSignature.length ≤ 50)
    (r : ByteArray) : Header.decode (h.encode ++ r) = .ok h.reread := by
  have hread : (Canonical.decode Header.reader (h.encode ++ r)).mapError LedgerError.encoding =
      .ok h.reread := by
    rw [Canonical.decode, ByteArray.toList_append]
    show ((fun p => p.1) <$> Header.reader (h.encode.toList ++ r.toList)).mapError _ = _
    rw [Header.reader_encode hf]
    rfl
  rw [Header.decode, hread]
  show (h.reread.fields.checkSignature >>= fun _ => pure h.reread) = _
  rw [@HeaderFields.checkSignature_eq_ok h.reread.fields hs]
  rfl


/-- A header read back compares equal to the header written exactly when its difficulty read
back compares equal to the difficulty written. -/
theorem Header.beq_reread (h : Header) :
    (h.reread == h) = (h.fields.difficulty.reread == h.fields.difficulty) := by
  obtain ⟨⟨v, n, b, p, m, t, d, o, s⟩, hash⟩ := h
  show instBEqHeader.beq _ _ = _
  rw [instBEqHeader.beq.eq_1]
  show (instBEqHeaderFields.beq _ _ && _) = _
  rw [instBEqHeaderFields.beq.eq_1]
  simp [Header.reread, HeaderFields.reread]

end Headers

end WorkLedger
