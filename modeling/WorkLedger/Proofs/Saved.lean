import WorkLedger.Proofs.JsonShape
import WorkLedger.Proofs.Canonical
import WorkLedger.Proofs.DecimalEquality
import WorkLedger.Ledger.Json

/-!
# Saved entities read back

A transaction, a header and a block are saved as the pretty JSON text of their objects. Each
object is described by its entity's shape (`Shape.Describes`), so its text reads back as the
datum the description names, from which the entity is rebuilt:

* a transaction comes back as itself (`Transaction.load_save`);
* a block comes back with its header's difficulty as its text reads (`Block.reread`, see
  `Decimal.reread`), which leaves every canonical byte as it was (`Block.load_save`);
* a digest written as a JSON string reads back as its bytes (`digestShape_readText`).

The last section gathers these with the canonical bytes of `Proofs.Canonical`: every codec
reads back what it wrote, up to the difficulty, whose reading back keeps every byte but may
compare unequal once its digits pass 64 bits (`wideHeader`).
-/

namespace WorkLedger

open Json

/-! ## Transactions -/

namespace Transaction

/-- The datum a transaction's object stands for. -/
def datum (t : Transaction) : Datum :=
  .fields [.nat t.version.toNat, .text t.identity, .nat t.nonce.toNat, .nat t.seed.toNat,
    .bytes t.publicKey]

/-- Hexadecimal bytes are described by their text. -/
theorem describes_hexBytes (n : Nat) (bytes : List UInt8) :
    Shape.Describes n hexBytesShape (.str (Hex.encode bytes)) (.bytes bytes) :=
  .parsed (by simp only [Hex.decode_encode])

/-- A transaction's object has the transaction's shape. -/
theorem describes (t : Transaction) : Shape.Describes 1 shape t.toJson t.datum := by
  refine .record (n := 0) "Transaction"
    [("version", .unsigned 32, .int t.version.toNat, .nat t.version.toNat),
     ("identity", .text, .str t.identity, .text t.identity),
     ("nonce", .unsigned 64, .int t.nonce.toNat, .nat t.nonce.toNat),
     ("seed", .unsigned 64, .int t.seed.toNat, .nat t.seed.toNat),
     ("public_key", hexBytesShape, .str (Hex.encode t.publicKey), .bytes t.publicKey)]
    (by simp only [List.map_cons, List.map_nil]; decide) ?_
  intro e he
  simp only [List.mem_cons, List.not_mem_nil, or_false] at he
  rcases he with rfl | rfl | rfl | rfl | rfl
  · exact .unsigned (by decide) t.version.toNat_lt
  · exact .text _
  · exact .unsigned (by decide) t.nonce.toNat_lt
  · exact .unsigned (by decide) t.seed.toNat_lt
  · exact describes_hexBytes _ _

theorem ofDatum_datum (t : Transaction) : ofDatum t.datum = t := by
  simp [ofDatum, datum, Datum.field, Datum.natD, Datum.textD, Datum.bytesD]

/-- **A saved transaction loads as itself.** -/
theorem load_save (t : Transaction) : load t.save = .ok t := by
  rw [load, save, loadEntity, Json.pretty, t.describes.readText_pretty (by decide)]
  exact congrArg Except.ok t.ofDatum_datum

end Transaction

/-! ## Headers -/

/-- The digests a header names are described by their text. -/
theorem describes_digest (n : Nat) (d : Digest) :
    Shape.Describes n digestShape (.str d.hex) (.bytes d.bytes) :=
  .parsed (by simp only [Digest.ofHex_hex])

/-- **A digest written as a JSON string reads back as its bytes.** -/
theorem digestShape_readText (d : Digest) (source : Source) :
    digestShape.readText (Json.str d.hex).compact.toUTF8 source = .ok (.bytes d.bytes) :=
  (describes_digest 0 d).readText_pretty (by decide) FloatText.render source

namespace HeaderFields

/-- The datum the object of header fields stands for, with the difficulty as its text reads. -/
def datum (f : HeaderFields) : Datum :=
  .fields [.nat f.version.toNat, .text f.chainName, .nat f.blockNumber.toNat,
    .bytes f.previousHash.bytes, .bytes f.merkleRoot.bytes, .int f.timestamp.toInt,
    .decimal f.difficulty.reread, .nat f.nonce.toNat, .text f.minerSignature]

/-- The object of header fields has their shape, when the difficulty's scale fits 64 bits. -/
theorem describes (f : HeaderFields)
    (hs : -2 ^ 63 ≤ f.difficulty.scale ∧ f.difficulty.scale < 2 ^ 63) :
    Shape.Describes 1 shape f.toJson f.datum := by
  refine .record (n := 0) "UnsealedHeader"
    [("version", .unsigned 32, .int f.version.toNat, .nat f.version.toNat),
     ("chain_name", .text, .str f.chainName, .text f.chainName),
     ("block_number", .unsigned 64, .int f.blockNumber.toNat, .nat f.blockNumber.toNat),
     ("previous_hash", digestShape, .str f.previousHash.hex, .bytes f.previousHash.bytes),
     ("merkle_root", digestShape, .str f.merkleRoot.hex, .bytes f.merkleRoot.bytes),
     ("timestamp", .signed64, .int f.timestamp.toInt, .int f.timestamp.toInt),
     ("difficulty", decimalShape, .str f.difficulty.toText, .decimal f.difficulty.reread),
     ("nonce", .unsigned 32, .int f.nonce.toNat, .nat f.nonce.toNat),
     ("miner_signature", .text, .str f.minerSignature, .text f.minerSignature)]
    (by simp only [List.map_cons, List.map_nil]; decide) ?_
  intro e he
  simp only [List.mem_cons, List.not_mem_nil, or_false] at he
  rcases he with rfl | rfl | rfl | rfl | rfl | rfl | rfl | rfl | rfl
  · exact .unsigned (by decide) f.version.toNat_lt
  · exact .text _
  · exact .unsigned (by decide) f.blockNumber.toNat_lt
  · exact describes_digest _ _
  · exact describes_digest _ _
  · exact .signed f.timestamp.le_toInt f.timestamp.toInt_lt
  · exact .parsed (by simp only [Decimal.parse_toText f.difficulty hs])
  · exact .unsigned (by decide) f.nonce.toNat_lt
  · exact .text _

theorem ofDatum_datum (f : HeaderFields) : ofDatum f.datum = f.reread := by
  simp [ofDatum, datum, reread, Datum.field, Datum.natD, Datum.textD, Datum.bytesD]

end HeaderFields

namespace Header

/-- The datum a header's object stands for. -/
def datum (h : Header) : Datum := .fields [h.fields.datum, .bytes h.hash.bytes]

theorem describes (h : Header)
    (hs : -2 ^ 63 ≤ h.fields.difficulty.scale ∧ h.fields.difficulty.scale < 2 ^ 63) :
    Shape.Describes 2 shape h.toJson h.datum := by
  refine .record (n := 1) "BlockHeader"
    [("fields", HeaderFields.shape, h.fields.toJson, h.fields.datum),
     ("hash", digestShape, .str h.hash.hex, .bytes h.hash.bytes)] (by simp only [List.map_cons, List.map_nil]; decide) ?_
  intro e he
  simp only [List.mem_cons, List.not_mem_nil, or_false] at he
  rcases he with rfl | rfl
  · exact h.fields.describes hs
  · exact describes_digest _ _

theorem ofDatum_datum (h : Header) : ofDatum h.datum = h.reread := by
  simp [ofDatum, datum, reread, Datum.field, Datum.bytesD, HeaderFields.ofDatum_datum]

end Header

/-! ## Blocks -/

namespace Block

/-- A block whose header's difficulty is replaced by what its text reads as. -/
def reread (b : Block) : Block := { b with header := b.header.reread }

/-- The datum a block's object stands for. -/
def datum (b : Block) : Datum :=
  .fields [b.header.datum, .items (b.transactions.map Transaction.datum)]

/-- The transactions of a block are described by their list. -/
theorem describes_transactions (txs : List Transaction) :
    Shape.Describes 2 (.list Transaction.shape) (.arr (txs.map Transaction.toJson))
      (.items (txs.map Transaction.datum)) := by
  have h := Shape.Describes.list (txs.map fun t => (t.toJson, t.datum)) fun e he => by
    obtain ⟨t, -, rfl⟩ := List.mem_map.1 he
    exact t.describes
  rw [List.map_map, List.map_map] at h
  exact h

theorem describes (b : Block)
    (hs : -2 ^ 63 ≤ b.header.fields.difficulty.scale ∧ b.header.fields.difficulty.scale < 2 ^ 63) :
    Shape.Describes 3 shape b.toJson b.datum := by
  refine .record (n := 2) "Block"
    [("header", Header.shape, b.header.toJson, b.header.datum),
     ("transactions", .list Transaction.shape, .arr (b.transactions.map Transaction.toJson),
       .items (b.transactions.map Transaction.datum))] (by simp only [List.map_cons, List.map_nil]; decide) ?_
  intro e he
  simp only [List.mem_cons, List.not_mem_nil, or_false] at he
  rcases he with rfl | rfl
  · exact b.header.describes hs
  · exact describes_transactions _

/-- A block read back compares equal to the block written exactly when its header's difficulty
read back compares equal to the difficulty written. -/
theorem beq_reread (b : Block) :
    (b.reread == b) = (b.header.fields.difficulty.reread == b.header.fields.difficulty) := by
  obtain ⟨h, txs⟩ := b
  show instBEqBlock.beq _ _ = _
  rw [instBEqBlock.beq.eq_1]
  show ((h.reread == h) && (txs == txs)) = _
  rw [Header.beq_reread]
  simp

theorem encode_reread (b : Block) : b.reread.header.encode = b.header.encode :=
  b.header.encode_reread

theorem ofDatum_datum (b : Block) : ofDatum b.datum = b.reread := by
  simp [ofDatum, datum, reread, Datum.field, Datum.itemsD, Header.ofDatum_datum,
    Function.comp_def, Transaction.ofDatum_datum]

/-- **A saved block loads back** with its header's difficulty as its text reads, when the
difficulty's scale fits 64 bits. -/
theorem load_save (b : Block)
    (hs : -2 ^ 63 ≤ b.header.fields.difficulty.scale ∧ b.header.fields.difficulty.scale < 2 ^ 63) :
    load b.save = .ok b.reread := by
  rw [load, save, loadEntity, Json.pretty, (b.describes hs).readText_pretty (by decide)]
  exact congrArg Except.ok b.ofDatum_datum

end Block

/-! ## Every codec read back -/

/-- **Canonical codecs undo themselves.** A transaction reads back as itself from its canonical
bytes and from its saved text. A header whose signature has at most fifty characters reads back
from its canonical bytes, and a block from its saved text, with the difficulty as its text
reads: the canonical bytes, the bytes hashed and the hash are those written, and the value read
compares equal to the value written exactly when the difficulty read compares equal to the
difficulty written, as it does whenever the difficulty's digits, with the zeros its text
appends, fit 64 bits. A digest reads back from its hexadecimal text and from its JSON string.
Every text's length fits the 64 bits it is written in, and every scale fits 64 bits. -/
theorem codecs_read_back (t : Transaction) (h : Header) (b : Block) (d : Digest) (r : ByteArray)
    (source : Source) (ht : Canonical.Fits t.identity ∧ Canonical.Fits (Hex.encode t.publicKey))
    (hh : h.Fits) (hsig : h.fields.minerSignature.length ≤ 50)
    (hb : -2 ^ 63 ≤ b.header.fields.difficulty.scale ∧ b.header.fields.difficulty.scale < 2 ^ 63) :
    (Transaction.decode (t.encode ++ r) = .ok t ∧ Transaction.load t.save = .ok t) ∧
    (Header.decode (h.encode ++ r) = .ok h.reread ∧ h.reread.encode = h.encode ∧
      h.reread.hashableBytes = h.hashableBytes ∧ h.reread.fields.hash = h.fields.hash ∧
      (h.reread == h) = (h.fields.difficulty.reread == h.fields.difficulty) ∧
      (h.fields.difficulty.unscaled.natAbs * 10 ^ h.fields.difficulty.scale.natAbs < 2 ^ 64 ∨
          ¬(-15 ≤ h.fields.difficulty.scale ∧ h.fields.difficulty.scale < 0) →
        (h.reread == h) = true)) ∧
    (Block.load b.save = .ok b.reread ∧ b.reread.header.encode = b.header.encode ∧
      (b.reread == b) = (b.header.fields.difficulty.reread == b.header.fields.difficulty)) ∧
    (Digest.ofHex d.hex = .ok d ∧
      digestShape.readText (Json.str d.hex).compact.toUTF8 source = .ok (.bytes d.bytes)) := by
  have hhash : h.reread.hashableBytes = h.hashableBytes := h.fields.hashableBytes_reread
  refine ⟨⟨Transaction.decode_encode ht.1 ht.2 r, t.load_save⟩,
    ⟨Header.decode_encode hh hsig r, h.encode_reread, hhash, ?_, h.beq_reread, fun hfit => ?_⟩,
    ⟨b.load_save hb, b.encode_reread, b.beq_reread⟩,
    ⟨Digest.ofHex_hex d, digestShape_readText d source⟩⟩
  · exact congrArg Digest.ofData hhash
  · rw [h.beq_reread]
    exact Decimal.reread_beq_self _ hfit

/-- A header whose difficulty, nineteen digits with the ten zeros its text appends, passes 64
bits. -/
def wideHeader : Header :=
  ⟨⟨1, "tessera-test", 0, ⟨[]⟩, ⟨[]⟩, 0, ⟨7922816251677867879, -10⟩, 0, ""⟩, ⟨[]⟩⟩

/-- A block of the placeholder transaction under the header with the wide difficulty. -/
def wideBlock : Block := ⟨wideHeader, [Transaction.placeholder]⟩

theorem wideHeader_fits : wideHeader.Fits :=
  ⟨⟨by unfold Canonical.Fits; decide, by unfold Canonical.Fits; decide,
    by unfold Canonical.Fits; decide, by unfold Canonical.Fits; decide, by decide,
    by unfold Canonical.Fits; decide⟩, by unfold Canonical.Fits; decide⟩

/-- The wide difficulty, nineteen digits with the ten zeros its text appends, read back compares
unequal to itself: comparing the two walks words whose sums pass 64 bits. -/
theorem wideHeader_difficulty_reread_beq :
    (wideHeader.fields.difficulty.reread == wideHeader.fields.difficulty) = false := by
  show Decimal.sameValue ⟨79228162516778678790000000000, 0⟩ ⟨7922816251677867879, -10⟩ = false
  simp [Decimal.sameValue, Decimal.scaledEqual, Decimal.tooShortForScaled, Decimal.bitLength,
    Decimal.words, Decimal.scaledWordsMatch, Decimal.wordBase, Decimal.wideBase]

/-- The codecs at the placeholder transaction, the header with the wide difficulty, a block of
both and the header's hash. -/
theorem codecs_read_back_at_wide_difficulty :
    (Canonical.Fits Transaction.placeholder.identity ∧
      Canonical.Fits (Hex.encode Transaction.placeholder.publicKey)) ∧ wideHeader.Fits ∧
    wideHeader.fields.minerSignature.length ≤ 50 ∧
    (-2 ^ 63 ≤ wideBlock.header.fields.difficulty.scale ∧
      wideBlock.header.fields.difficulty.scale < 2 ^ 63) ∧
    ((Transaction.decode (Transaction.placeholder.encode ++ .empty) = .ok Transaction.placeholder ∧
        Transaction.load Transaction.placeholder.save = .ok Transaction.placeholder) ∧
      (Header.decode (wideHeader.encode ++ .empty) = .ok wideHeader.reread ∧
        wideHeader.reread.encode = wideHeader.encode ∧
        wideHeader.reread.hashableBytes = wideHeader.hashableBytes ∧
        wideHeader.reread.fields.hash = wideHeader.fields.hash ∧
        (wideHeader.reread == wideHeader) =
          (wideHeader.fields.difficulty.reread == wideHeader.fields.difficulty) ∧
        (wideHeader.fields.difficulty.unscaled.natAbs *
              10 ^ wideHeader.fields.difficulty.scale.natAbs < 2 ^ 64 ∨
            ¬(-15 ≤ wideHeader.fields.difficulty.scale ∧ wideHeader.fields.difficulty.scale < 0) →
          (wideHeader.reread == wideHeader) = true)) ∧
      (Block.load wideBlock.save = .ok wideBlock.reread ∧
        wideBlock.reread.header.encode = wideBlock.header.encode ∧
        (wideBlock.reread == wideBlock) =
          (wideBlock.header.fields.difficulty.reread == wideBlock.header.fields.difficulty)) ∧
      (Digest.ofHex wideHeader.hash.hex = .ok wideHeader.hash ∧
        digestShape.readText (Json.str wideHeader.hash.hex).compact.toUTF8 .stream =
          .ok (.bytes wideHeader.hash.bytes))) := by
  have ht : Canonical.Fits Transaction.placeholder.identity ∧
      Canonical.Fits (Hex.encode Transaction.placeholder.publicKey) :=
    ⟨by unfold Canonical.Fits; decide, by unfold Canonical.Fits; decide⟩
  have hsig : wideHeader.fields.minerSignature.length ≤ 50 := by decide
  have hb : -2 ^ 63 ≤ wideBlock.header.fields.difficulty.scale ∧
      wideBlock.header.fields.difficulty.scale < 2 ^ 63 := by decide
  exact ⟨ht, wideHeader_fits, hsig, hb, codecs_read_back Transaction.placeholder wideHeader
    wideBlock wideHeader.hash .empty .stream ht wideHeader_fits hsig hb⟩

/-- **The header with the wide difficulty reads back unequal to itself, and so does a block
under it.** The header's bytes, and the block's saved text, read back with the difficulty as
the same number at scale zero, and comparing the two difficulties walks words whose sums pass
64 bits. -/
theorem Header.wide_difficulty_reads_back_unequal :
    (Header.decode (wideHeader.encode ++ .empty) = .ok wideHeader.reread ∧
      (wideHeader.reread == wideHeader) = false) ∧
    (Block.load wideBlock.save = .ok wideBlock.reread ∧ (wideBlock.reread == wideBlock) = false) := by
  refine ⟨⟨Header.decode_encode wideHeader_fits (by decide) _, ?_⟩,
    ⟨wideBlock.load_save (by decide), ?_⟩⟩
  · rw [Header.beq_reread]
    exact wideHeader_difficulty_reread_beq
  · rw [Block.beq_reread]
    exact wideHeader_difficulty_reread_beq

end WorkLedger
