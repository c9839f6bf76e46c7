import WorkLedger.Proofs.Saved
import WorkLedger.Network.Frame
import Mathlib.Tactic.Ring

/-!
# Messages on a stream

A message is sent as a frame: eight big-endian bytes of its body's length, then the body, the
message's compact JSON text. Every message whose body fits the size limit reads back from its
frame as the message with each difficulty as its text reads (`Message.receive_frame`), leaving
what follows the frame on the stream, so frames written one after another read back one after
another and exactly use up the stream (`Message.receiveMany_frames`).

The body reads back because a message's JSON object is described by the message's shape
(`Message.describes`): a variant without content is its name, any other an object with the
variant's name as its one key. Identifiers read back from their hyphenated text
(`Uuid.parse_toText`), and compact blocks, like blocks, with their header's difficulty as its
text reads.

Both ends hold the same limit: sending refuses a body longer than the limit before writing
anything (`Message.frame_eq_error_iff`), and receiving refuses a length above the limit before
reading the body (`Message.receive_tooLarge`). A message read back compares equal to the message
sent exactly when each difficulty read back compares equal to the one written
(`Message.beq_reread`).
-/

namespace WorkLedger

open Json

/-! ## Identifiers -/

namespace Hex

set_option maxRecDepth 4000 in
/-- A byte is its high digit times sixteen plus its low digit. -/
theorem mul_sixteen_add (b : UInt8) : (b >>> 4) * 16 + (b &&& 15) = b := by
  have h : ∀ n < 256, (UInt8.ofNat n >>> 4) * 16 + (UInt8.ofNat n &&& 15) = UInt8.ofNat n := by
    decide
  simpa using h b.toNat b.toNat_lt

/-- The digit written for a value below sixteen is no hyphen, and reads back as the value. -/
theorem digitChar_value (v : UInt8) (hv : v.toNat < 16) :
    digitChar v ≠ '-' ∧ digitValue? (digitChar v).toNat.toUInt8 = some v := by
  have h : ∀ n < 16, digitChar (UInt8.ofNat n) ≠ '-' ∧
      digitValue? (digitChar (UInt8.ofNat n)).toNat.toUInt8 = some (UInt8.ofNat n) := by
    decide
  simpa using h v.toNat hv

end Hex

namespace Uuid

theorem bytesOfDigits_byteChars (bytes : List UInt8) :
    bytesOfDigits (bytes.flatMap Hex.byteChars) = some bytes := by
  induction bytes with
  | nil => rfl
  | cons b bs ih =>
    obtain ⟨-, hx⟩ := Hex.digitChar_value _ (Hex.toNat_shiftRight_four_lt b)
    obtain ⟨-, hy⟩ := Hex.digitChar_value _ (Hex.toNat_and_fifteen_lt b)
    simp [Hex.byteChars, bytesOfDigits, hx, hy, ih, Hex.mul_sixteen_add]

theorem not_mem_byteChars (bytes : List UInt8) : '-' ∉ bytes.flatMap Hex.byteChars := by
  simp only [List.mem_flatMap, not_exists, not_and]
  intro b _ hb
  simp only [Hex.byteChars, List.mem_cons, List.not_mem_nil, or_false] at hb
  rcases hb with hb | hb
  · exact (Hex.digitChar_value _ (Hex.toNat_shiftRight_four_lt b)).1 hb.symm
  · exact (Hex.digitChar_value _ (Hex.toNat_and_fifteen_lt b)).1 hb.symm

/-- The hyphenated text: the digits in groups of 8, 4, 4, 4 and 12, hyphens between them. -/
theorem toList_toText (u : Uuid) :
    u.toText.toList =
      let d := u.bytes.flatMap Hex.byteChars
      d.take 8 ++ '-' :: ((d.drop 8).take 4 ++ '-' :: ((d.drop 12).take 4 ++ '-' ::
        ((d.drop 16).take 4 ++ '-' :: d.drop 20))) := by
  simp [toText, Hex.encode]

/-- Digits cut at 8, 12, 16 and 20 join back into the digits. -/
theorem groups_join (d : List Char) :
    d.take 8 ++ ((d.drop 8).take 4 ++ ((d.drop 12).take 4 ++ ((d.drop 16).take 4 ++ d.drop 20))) =
      d := by
  rw [show d.drop 20 = (d.drop 16).drop 4 by rw [List.drop_drop], List.take_append_drop,
    show d.drop 16 = (d.drop 12).drop 4 by rw [List.drop_drop], List.take_append_drop,
    show d.drop 12 = (d.drop 8).drop 4 by rw [List.drop_drop], List.take_append_drop,
    List.take_append_drop]

/-- **An identifier reads back from its hyphenated text.** -/
theorem parse_toText (u : Uuid) (hu : u.bytes.length = 16) : parse u.toText = .ok u := by
  have hd : (u.bytes.flatMap Hex.byteChars).length = 32 := by
    rw [List.length_flatMap]
    simp [Hex.byteChars, hu]
  have hnot := not_mem_byteChars u.bytes
  have hdigits := bytesOfDigits_byteChars u.bytes
  rw [parse, toList_toText]
  generalize u.bytes.flatMap Hex.byteChars = d at hd hnot hdigits
  have hlen : (d.take 8 ++ '-' :: ((d.drop 8).take 4 ++ '-' :: ((d.drop 12).take 4 ++ '-' ::
      ((d.drop 16).take 4 ++ '-' :: d.drop 20)))).length = 36 := by
    simp [hd]
  -- the digits are no hyphens, so dropping the hyphens leaves the digits
  have hfilter : ∀ l : List Char, l ⊆ d → l.filter (fun c => decide ¬c = '-') = l :=
    fun l hl => List.filter_eq_self.2 fun c hc => decide_eq_true fun h => hnot (h ▸ hl hc)
  have hsub : ∀ m k, (d.drop m).take k ⊆ d :=
    fun _ _ _ hc => List.mem_of_mem_drop (List.mem_of_mem_take hc)
  simp only [ofForm, hlen, ofHyphenated, true_and]
  rw [if_pos ⟨by simp [hd], by simp [hd], by simp [hd], by simp [hd]⟩]
  simp only [List.filter_append, List.filter_cons, ne_eq, not_true_eq_false, decide_false,
    Bool.false_eq_true, if_false]
  rw [hfilter _ (List.take_subset _ _), hfilter _ (hsub 8 4), hfilter _ (hsub 12 4),
    hfilter _ (hsub 16 4), hfilter _ (List.drop_subset _ _), groups_join, hdigits]

end Uuid

/-! ## Compact blocks -/

/-- A header read back is written as the same JSON, its difficulty's text being the same. -/
theorem Header.toJson_reread (h : Header) : h.reread.toJson = h.toJson := by
  simp [Header.toJson, Header.reread, HeaderFields.toJson, HeaderFields.reread,
    Decimal.toText_reread]

theorem Block.toJson_reread (b : Block) : b.reread.toJson = b.toJson := by
  simp [Block.toJson, Block.reread, Header.toJson_reread]

namespace AuditStep

/-- The datum an audit step's object stands for. -/
def datum (s : AuditStep) : Datum := .fields [.bytes s.sibling.bytes, .bool s.isLeft]

theorem describes (s : AuditStep) : Shape.Describes 1 shape s.toJson s.datum := by
  refine .record (n := 0) "AuditEntry"
    [("sibling", digestShape, .str s.sibling.hex, .bytes s.sibling.bytes),
     ("is_left", .boolean, .bool s.isLeft, .bool s.isLeft)]
    (by simp only [List.map_cons, List.map_nil]; decide) ?_
  intro e he
  simp only [List.mem_cons, List.not_mem_nil, or_false] at he
  rcases he with rfl | rfl
  · exact describes_digest _ _
  · exact .boolean _

theorem ofDatum_datum (s : AuditStep) : ofDatum s.datum = s := by
  simp [ofDatum, datum, Datum.field, Datum.bytesD]

end AuditStep

namespace AuditPath

/-- The datum an audit path's object stands for. -/
def datum (p : AuditPath) : Datum :=
  .fields [p.transaction.datum, .nat p.blockNumber.toNat, .items (p.steps.map AuditStep.datum)]

theorem describes (p : AuditPath) : Shape.Describes 3 shape p.toJson p.datum := by
  have hsteps := Shape.Describes.list (p.steps.map fun s => (s.toJson, s.datum)) fun e he => by
    obtain ⟨s, -, rfl⟩ := List.mem_map.1 he
    exact s.describes
  rw [List.map_map, List.map_map] at hsteps
  refine .record (n := 2) "AuditPath"
    [("transaction", Transaction.shape, p.transaction.toJson, p.transaction.datum),
     ("block_number", .unsigned 64, .int p.blockNumber.toNat, .nat p.blockNumber.toNat),
     ("entries", .list AuditStep.shape, .arr (p.steps.map AuditStep.toJson),
       .items (p.steps.map AuditStep.datum))]
    (by simp only [List.map_cons, List.map_nil]; decide) ?_
  intro e he
  simp only [List.mem_cons, List.not_mem_nil, or_false] at he
  rcases he with rfl | rfl | rfl
  · exact p.transaction.describes.mono (by omega)
  · exact .unsigned (by decide) p.blockNumber.toNat_lt
  · exact hsteps

theorem ofDatum_datum (p : AuditPath) : ofDatum p.datum = p := by
  simp [ofDatum, datum, Datum.field, Datum.natD, Datum.itemsD, Function.comp_def,
    Transaction.ofDatum_datum, AuditStep.ofDatum_datum]

end AuditPath

namespace CompactBlock

/-- A compact block whose header's difficulty is replaced by what its text reads as. -/
def reread (c : CompactBlock) : CompactBlock := { c with header := c.header.reread }

/-- The datum a compact block's object stands for. -/
def datum (c : CompactBlock) : Datum :=
  .fields [c.header.datum, c.transaction.datum, c.auditPath.datum]

theorem describes (c : CompactBlock)
    (hs : -2 ^ 63 ≤ c.header.fields.difficulty.scale ∧
      c.header.fields.difficulty.scale < 2 ^ 63) :
    Shape.Describes 4 shape c.toJson c.datum := by
  refine .record (n := 3) "CompactBlock"
    [("header", Header.shape, c.header.toJson, c.header.datum),
     ("transaction", Transaction.shape, c.transaction.toJson, c.transaction.datum),
     ("audit_path", AuditPath.shape, c.auditPath.toJson, c.auditPath.datum)]
    (by simp only [List.map_cons, List.map_nil]; decide) ?_
  intro e he
  simp only [List.mem_cons, List.not_mem_nil, or_false] at he
  rcases he with rfl | rfl | rfl
  · exact (c.header.describes hs).mono (by omega)
  · exact c.transaction.describes.mono (by omega)
  · exact c.auditPath.describes

theorem ofDatum_datum (c : CompactBlock) : ofDatum c.datum = c.reread := by
  simp [ofDatum, datum, reread, Datum.field, Header.ofDatum_datum, Transaction.ofDatum_datum,
    AuditPath.ofDatum_datum]

theorem beq_reread (c : CompactBlock) :
    (c.reread == c) = (c.header.fields.difficulty.reread == c.header.fields.difficulty) := by
  obtain ⟨h, t, p⟩ := c
  show instBEqCompactBlock.beq _ _ = _
  rw [instBEqCompactBlock.beq.eq_1]
  show ((h.reread == h) && ((t == t) && (p == p))) = _
  rw [Header.beq_reread]
  simp

theorem toJson_reread (c : CompactBlock) : c.reread.toJson = c.toJson := by
  simp [toJson, reread, Header.toJson_reread]

end CompactBlock

/-! ## Messages -/

namespace Message

/-- The message with the difficulty of its block, header or compact block replaced by what its
text reads as. -/
def reread : Message → Message
  | .blockReply b => .blockReply (b.map Block.reread)
  | .headReply h => .headReply (h.map Header.reread)
  | .compactBlockReply c => .compactBlockReply (c.map CompactBlock.reread)
  | .newBlock b => .newBlock b.reread
  | m => m

/-- The difficulties a message carries, in its block, header or compact block. -/
def difficulties : Message → List Decimal
  | .blockReply (some b) | .newBlock b => [b.header.fields.difficulty]
  | .headReply (some h) => [h.fields.difficulty]
  | .compactBlockReply (some c) => [c.header.fields.difficulty]
  | _ => []

/-- The identifiers a message carries. -/
def identifiers : Message → List Uuid
  | .ping u | .pong u => [u]
  | _ => []

/-- A message whose values fit their texts: the scale of each difficulty fits 64 bits, and each
identifier has its sixteen bytes. -/
structure Fits (m : Message) : Prop where
  scales : ∀ d ∈ m.difficulties, -2 ^ 63 ≤ d.scale ∧ d.scale < 2 ^ 63
  identifiers : ∀ u ∈ m.identifiers, u.bytes.length = 16

/-- The datum an optional value stands for. -/
def optionDatum {α : Type} (f : α → Datum) : Option α → Datum
  | some a => .present (f a)
  | none => .absent

/-- The datum a message's JSON stands for: the index of its variant and its content. -/
def datum : Message → Datum
  | .fetchBlockByNumber n => .variant 0 (.nat n.toNat)
  | .fetchBlockByHash h => .variant 1 (.bytes h.bytes)
  | .fetchHead => .variant 2 .absent
  | .fetchCompactBlock n t => .variant 3 (.fields [.nat n.toNat, t.datum])
  | .blockReply b => .variant 4 (optionDatum Block.datum b)
  | .headReply h => .variant 5 (optionDatum Header.datum h)
  | .compactBlockReply c => .variant 6 (optionDatum CompactBlock.datum c)
  | .newBlock b => .variant 7 b.datum
  | .newTransaction t => .variant 8 t.datum
  | .blockAccepted => .variant 9 .absent
  | .blockRejected r => .variant 10 (.text r)
  | .transactionAccepted => .variant 11 .absent
  | .transactionRejected r => .variant 12 (.text r)
  | .ping u => .variant 13 (.bytes u.bytes)
  | .pong u => .variant 14 (.bytes u.bytes)

/-- An optional value is `null` when absent and its object when present. -/
theorem describes_option {n : Nat} {α : Type} {s : Shape} (toJson : α → Json) (f : α → Datum)
    (x : Option α) (h : ∀ a ∈ x, Shape.Describes n s (toJson a) (f a))
    (hj : ∀ a ∈ x, toJson a ≠ .null) :
    Shape.Describes (n + 1) (.optional s) (optionJson toJson x) (optionDatum f x) := by
  cases x with
  | none => exact .absent
  | some a => exact .present (h a rfl) (hj a rfl)

/-- An identifier is described by its hyphenated text. -/
theorem describes_uuid {u : Uuid} (hu : u.bytes.length = 16) (n : Nat) :
    Shape.Describes n uuidShape (.str u.toText) (.bytes u.bytes) :=
  .parsed (by simp only [Uuid.parse_toText u hu])

/-- **A message's JSON has the message's shape**, when its values fit their texts. -/
theorem describes (m : Message) (hm : m.Fits) : Shape.Describes 6 shape m.toJson m.datum := by
  cases m with
  | fetchBlockByNumber k => exact .variant (by decide) (.unsigned (by decide) k.toNat_lt)
  | fetchBlockByHash h => exact .variant (by decide) (describes_digest _ h)
  | fetchHead => exact .unitVariant (by decide) rfl
  | fetchCompactBlock k t =>
    refine .variant (by decide) (Shape.Describes.mono (.variantRecord (n := 1)
      "Message::FetchCompactBlock"
      [("block_number", .unsigned 64, .int k.toNat, .nat k.toNat),
       ("transaction", Transaction.shape, t.toJson, t.datum)]
      (by simp only [List.map_cons, List.map_nil]; decide) ?_) (by omega))
    intro e he
    simp only [List.mem_cons, List.not_mem_nil, or_false] at he
    rcases he with rfl | rfl
    · exact .unsigned (by decide) k.toNat_lt
    · exact t.describes
  | blockReply b =>
    refine .variant (by decide) (describes_option Block.toJson Block.datum b
      (fun a ha => ((a.describes (hm.scales _ ?_)).mono (by omega))) fun a _ h => by cases h)
    cases ha
    simp [difficulties]
  | headReply h =>
    refine .variant (by decide) (describes_option Header.toJson Header.datum h
      (fun a ha => ((a.describes (hm.scales _ ?_)).mono (by omega))) fun a _ h => by cases h)
    cases ha
    simp [difficulties]
  | compactBlockReply c =>
    refine .variant (by decide) (describes_option CompactBlock.toJson CompactBlock.datum c
      (fun a ha => ((a.describes (hm.scales _ ?_)).mono (by omega))) fun a _ h => by cases h)
    cases ha
    simp [difficulties]
  | newBlock b =>
    exact .variant (by decide)
      ((b.describes (hm.scales _ (by simp [difficulties]))).mono (by omega))
  | newTransaction t => exact .variant (by decide) (t.describes.mono (by omega))
  | blockAccepted => exact .unitVariant (by decide) rfl
  | blockRejected r => exact .variant (by decide) (.text r)
  | transactionAccepted => exact .unitVariant (by decide) rfl
  | transactionRejected r => exact .variant (by decide) (.text r)
  | ping u =>
    exact .variant (by decide) (describes_uuid (hm.identifiers u (by simp [identifiers])) _)
  | pong u =>
    exact .variant (by decide) (describes_uuid (hm.identifiers u (by simp [identifiers])) _)

theorem ofDatum_datum (m : Message) : ofDatum m.datum = m.reread := by
  cases m with
  | blockReply b =>
    cases b <;> simp [ofDatum, datum, reread, optionOf, optionDatum, Block.ofDatum_datum]
  | headReply h =>
    cases h <;> simp [ofDatum, datum, reread, optionOf, optionDatum, Header.ofDatum_datum]
  | compactBlockReply c =>
    cases c <;> simp [ofDatum, datum, reread, optionOf, optionDatum, CompactBlock.ofDatum_datum]
  | _ => simp [ofDatum, datum, reread, Datum.natD, Datum.bytesD, Datum.textD, Datum.field,
      Block.ofDatum_datum, Transaction.ofDatum_datum]

/-- **A message reads back from its bytes** as the message with each difficulty as its text
reads, when its values fit their texts. -/
theorem decode_encode (m : Message) (hm : m.Fits) : decode m.encode = .ok m.reread := by
  rw [decode, encode, Json.compact, (m.describes hm).readText_compact (by decide),
    ← m.ofDatum_datum]
  rfl

/-- A message read back is written as the same JSON as the message written. -/
theorem toJson_reread (m : Message) : m.reread.toJson = m.toJson := by
  cases m with
  | blockReply b => cases b <;> simp [reread, toJson, optionJson, Block.toJson_reread]
  | headReply h => cases h <;> simp [reread, toJson, optionJson, Header.toJson_reread]
  | compactBlockReply c => cases c <;> simp [reread, toJson, optionJson, CompactBlock.toJson_reread]
  | newBlock b => simp [reread, toJson, Block.toJson_reread]
  | _ => rfl

/-- A message read back compares equal to the message written exactly when each difficulty it
carries, read back, compares equal to the difficulty written. -/
theorem beq_reread (m : Message) :
    (m.reread == m) = m.difficulties.all fun d => d.reread == d := by
  -- the derived comparison of two messages of one variant compares their contents
  cases m with
  | blockReply b =>
    cases b with
    | none => rfl
    | some b =>
      show (b.reread == b) = _
      simp [difficulties, Block.beq_reread]
  | headReply h =>
    cases h with
    | none => rfl
    | some h =>
      show (h.reread == h) = _
      simp [difficulties, Header.beq_reread]
  | compactBlockReply c =>
    cases c with
    | none => rfl
    | some c =>
      show (c.reread == c) = _
      simp [difficulties, CompactBlock.beq_reread]
  | newBlock b =>
    show (b.reread == b) = _
    simp [difficulties, Block.beq_reread]
  | fetchBlockByNumber k => exact beq_self_eq_true k
  | fetchBlockByHash h => exact beq_self_eq_true h
  | fetchHead => rfl
  | fetchCompactBlock k t =>
    show ((k == k) && (t == t)) = true
    simp
  | newTransaction t => exact beq_self_eq_true t
  | blockAccepted => rfl
  | blockRejected r => exact beq_self_eq_true r
  | transactionAccepted => rfl
  | transactionRejected r => exact beq_self_eq_true r
  | ping u => exact beq_self_eq_true u
  | pong u => exact beq_self_eq_true u

end Message

/-! ## Frames -/

theorem length_lengthBytes (n : Nat) : (lengthBytes n).length = 8 := by
  simp [lengthBytes]

/-- Reading big-endian bytes after a value already read moves that value up a byte per byte. -/
theorem foldl_lengthOf (bytes : List UInt8) (acc : Nat) :
    bytes.foldl (fun acc b => acc * 256 + b.toNat) acc =
      acc * 256 ^ bytes.length + lengthOf bytes := by
  induction bytes generalizing acc with
  | nil => simp [lengthOf]
  | cons b bytes ih =>
    rw [lengthOf, List.foldl_cons, List.foldl_cons, ih, ih (0 * 256 + b.toNat), List.length_cons,
      Nat.pow_succ]
    ring

theorem lengthOf_cons (b : UInt8) (bytes : List UInt8) :
    lengthOf (b :: bytes) = b.toNat * 256 ^ bytes.length + lengthOf bytes := by
  rw [lengthOf, List.foldl_cons, foldl_lengthOf]
  simp

/-- The low `k` bytes of `n`, most significant first, stand for `n` modulo `256 ^ k`. -/
theorem lengthOf_digits (n k : Nat) :
    lengthOf ((List.range k).reverse.map fun i => (n / Nat.pow 256 i % 256).toUInt8) =
      n % 256 ^ k := by
  induction k with
  | zero => simp [lengthOf, Nat.mod_one]
  | succ k ih =>
    rw [List.range_succ, List.reverse_append, List.reverse_singleton, List.singleton_append,
      List.map_cons, lengthOf_cons, List.length_map, List.length_reverse, List.length_range, ih,
      Nat.mod_pow_succ]
    have hdigit : (n / Nat.pow 256 k % 256).toUInt8.toNat = n / 256 ^ k % 256 := by
      simp [Nat.pow_eq, Nat.toUInt8]
    rw [hdigit]
    ring

/-- **Eight big-endian bytes stand for any length below `2 ^ 64`.** -/
theorem lengthOf_lengthBytes {n : Nat} (hn : n < 2 ^ 64) : lengthOf (lengthBytes n) = n := by
  rw [lengthBytes, lengthOf_digits, Nat.mod_eq_of_lt (by simpa using hn)]

namespace Message

theorem length_encode (m : Message) : m.encode.toList.length = m.encode.size :=
  ByteArray.length_toList m.encode

/-- The frame of a message whose body fits the limit: its length, then its body. -/
theorem frame_eq_ok {m : Message} (h : m.encode.size ≤ maxMessageSize) :
    m.frame = .ok (lengthBytes m.encode.size ++ m.encode.toList) := by
  rw [frame, length_encode, if_neg (by omega)]

/-- A message whose body passes the limit is refused, and nothing is written. -/
theorem frame_eq_error {m : Message} (h : maxMessageSize < m.encode.size) :
    m.frame = .error (.refused m.encode.size) := by
  rw [frame, length_encode, if_pos h]

theorem frame_eq_error_iff (m : Message) :
    (∃ e, m.frame = .error e) ↔ maxMessageSize < m.encode.size := by
  constructor
  · rintro ⟨e, he⟩
    by_contra h
    rw [frame_eq_ok (by omega)] at he
    cases he
  · exact fun h => ⟨_, frame_eq_error h⟩

/-- An empty stream has no message: it ends inside the length. -/
theorem receive_nil (mode : ReadMode) : receive mode [] = .error (.endOfStream mode) := rfl

/-- **A length above the limit is refused before the body is read**: whatever follows the
length, the answer is the same. -/
theorem receive_tooLarge (mode : ReadMode) {header : List UInt8} (h8 : header.length = 8)
    (hbig : maxMessageSize < lengthOf header) (rest : List UInt8) :
    receive mode (header ++ rest) = .error (.tooLarge (lengthOf header)) := by
  have htake : (header ++ rest).take 8 = header := by
    rw [List.take_append_of_le_length (by omega), List.take_of_length_le (by omega)]
  rw [receive, if_neg (by simp; omega), htake, if_pos hbig]

/-- **A frame reads back as its message**, with each difficulty as its text reads, and leaves
what follows it on the stream. -/
theorem receive_frame (mode : ReadMode) {m : Message} (hm : m.Fits)
    (hsize : m.encode.size ≤ maxMessageSize) (rest : List UInt8) :
    receive mode (lengthBytes m.encode.size ++ m.encode.toList ++ rest) = .ok (m.reread, rest) := by
  have hlen : lengthOf (lengthBytes m.encode.size) = m.encode.size :=
    lengthOf_lengthBytes (by unfold maxMessageSize at hsize; omega)
  have h8 := length_lengthBytes m.encode.size
  have hbody : (⟨(m.encode.toList.take m.encode.size).toArray⟩ : ByteArray) = m.encode := by
    rw [← length_encode, List.take_length, ByteArray.toList_eq, Array.toArray_toList]
  rw [List.append_assoc, receive]
  simp only [List.length_append, h8, List.take_left' h8, List.drop_left' h8, hlen, length_encode]
  rw [if_neg (by omega), if_neg (by omega), if_neg (by omega), List.take_append_of_le_length
    (by rw [length_encode]), hbody, decode_encode m hm, List.drop_append_of_le_length
    (by rw [length_encode]), ← length_encode, List.drop_length, List.nil_append]

end Message

/-! ## Streams -/

/-- Receives `k` messages one after another from a stream, with what is left of it. -/
def Message.receiveMany (mode : ReadMode) : Nat → List UInt8 →
    Except FrameError (List Message × List UInt8)
  | 0, stream => .ok ([], stream)
  | k + 1, stream => do
    let (m, rest) ← receive mode stream
    let (ms, rest') ← receiveMany mode k rest
    pure (m :: ms, rest')

/-- The frames of messages whose bodies fit the limit, written one after another. -/
theorem Message.mapM_frame {ms : List Message}
    (hsize : ∀ m ∈ ms, m.encode.size ≤ maxMessageSize) :
    ms.mapM frame = .ok (ms.map fun m => lengthBytes m.encode.size ++ m.encode.toList) := by
  induction ms with
  | nil => rfl
  | cons m ms ih =>
    rw [List.mapM_cons, frame_eq_ok (hsize m List.mem_cons_self),
      ih fun m' hm' => hsize m' (List.mem_cons_of_mem m hm')]
    rfl

/-- **Frames written one after another read back one after another**, each as its message
with each difficulty as its text reads, and leave what follows them. -/
theorem Message.receiveMany_frames (mode : ReadMode) {ms : List Message}
    (hfit : ∀ m ∈ ms, m.Fits) (hsize : ∀ m ∈ ms, m.encode.size ≤ maxMessageSize)
    (rest : List UInt8) :
    receiveMany mode ms.length
        ((ms.map fun m => lengthBytes m.encode.size ++ m.encode.toList).flatten ++ rest) =
      .ok (ms.map reread, rest) := by
  induction ms with
  | nil => rfl
  | cons m ms ih =>
    rw [List.map_cons, List.flatten_cons, List.append_assoc, List.length_cons, receiveMany,
      receive_frame mode (hfit m List.mem_cons_self) (hsize m List.mem_cons_self)]
    -- the first frame gives its message; the rest of the stream gives the others
    simp only [bind, Except.bind, ih (fun m' hm' => hfit m' (List.mem_cons_of_mem m hm'))
      (fun m' hm' => hsize m' (List.mem_cons_of_mem m hm'))]
    rfl

/-- One receive more than the frames written finds the stream ended. -/
theorem Message.receiveMany_frames_succ (mode : ReadMode) {ms : List Message}
    (hfit : ∀ m ∈ ms, m.Fits) (hsize : ∀ m ∈ ms, m.encode.size ≤ maxMessageSize) :
    receiveMany mode (ms.length + 1)
        (ms.map fun m => lengthBytes m.encode.size ++ m.encode.toList).flatten =
      .error (.endOfStream mode) := by
  induction ms with
  | nil => rfl
  | cons m ms ih =>
    rw [List.map_cons, List.flatten_cons, List.length_cons, receiveMany,
      receive_frame mode (hfit m List.mem_cons_self) (hsize m List.mem_cons_self)]
    simp only [bind, Except.bind, ih (fun m' hm' => hfit m' (List.mem_cons_of_mem m hm'))
      (fun m' hm' => hsize m' (List.mem_cons_of_mem m hm'))]

/-! ## Messages on a stream as a whole -/

/-- **Frames carry messages, up to the difficulty's reading back.** Messages whose values fit
their texts and whose bodies fit the limit are sent as frames, each the eight big-endian bytes
of its body's length and the body; received one after another from the frames written one after
another, they come back in order, each as the message with each difficulty as its text reads,
and leave the stream as it was after the frames; one receive more finds the stream ended. Each
message received is written as the same JSON as the message sent, and compares equal to it
exactly when each difficulty read back compares equal to the one written. Eight big-endian bytes
stand for every length below `2 ^ 64`. Sending refuses exactly the bodies longer than the limit,
before writing anything, and receiving refuses a length above the limit, whatever follows it. -/
theorem frames_carry_messages (ms : List Message) (hfit : ∀ m ∈ ms, m.Fits)
    (hsize : ∀ m ∈ ms, m.encode.size ≤ maxMessageSize) (mode : ReadMode) :
    ms.mapM Message.frame = .ok (ms.map fun m => lengthBytes m.encode.size ++ m.encode.toList) ∧
    (∀ rest, Message.receiveMany mode ms.length
        ((ms.map fun m => lengthBytes m.encode.size ++ m.encode.toList).flatten ++ rest) =
      .ok (ms.map Message.reread, rest)) ∧
    Message.receiveMany mode (ms.length + 1)
        (ms.map fun m => lengthBytes m.encode.size ++ m.encode.toList).flatten =
      .error (.endOfStream mode) ∧
    (∀ m ∈ ms, m.reread.toJson = m.toJson ∧
      (m.reread == m) = m.difficulties.all fun d => d.reread == d) ∧
    (∀ n < 2 ^ 64, (lengthBytes n).length = 8 ∧ lengthOf (lengthBytes n) = n) ∧
    (∀ m : Message, (∃ e, m.frame = .error e) ↔ maxMessageSize < m.encode.size) ∧
    (∀ m : Message, maxMessageSize < m.encode.size →
      m.frame = .error (.refused m.encode.size)) ∧
    (∀ header rest, header.length = 8 → maxMessageSize < lengthOf header →
      Message.receive mode (header ++ rest) = .error (.tooLarge (lengthOf header))) :=
  ⟨Message.mapM_frame hsize, Message.receiveMany_frames mode hfit hsize,
    Message.receiveMany_frames_succ mode hfit hsize,
    fun m _ => ⟨m.toJson_reread, m.beq_reread⟩,
    fun _ hn => ⟨length_lengthBytes _, lengthOf_lengthBytes hn⟩, Message.frame_eq_error_iff,
    fun _ h => Message.frame_eq_error h,
    fun _ rest h8 hbig => Message.receive_tooLarge mode h8 hbig rest⟩

/-- The message that carries the block with the wide difficulty fits its text. -/
theorem wideBlock_message_fits : (Message.newBlock wideBlock).Fits :=
  ⟨fun d hd => by simp only [Message.difficulties, List.mem_singleton] at hd; subst hd; decide,
    nofun⟩

/-- The message that carries the block with the wide difficulty is short. -/
theorem wideBlock_message_size : (Message.newBlock wideBlock).encode.size ≤ maxMessageSize := by
  decide +kernel

/-- Frames of a request, of the block with the wide difficulty and of an acknowledgement, read
blocking: the block comes back unequal to the block sent. -/
theorem frames_carry_messages_with_wide_block :
    (∀ m ∈ [Message.fetchHead, .newBlock wideBlock, .blockAccepted], m.Fits) ∧
    (∀ m ∈ [Message.fetchHead, .newBlock wideBlock, .blockAccepted],
      m.encode.size ≤ maxMessageSize) ∧
    let ms := [Message.fetchHead, .newBlock wideBlock, .blockAccepted]
    ms.mapM Message.frame = .ok (ms.map fun m => lengthBytes m.encode.size ++ m.encode.toList) ∧
    (∀ rest, Message.receiveMany .blocking ms.length
        ((ms.map fun m => lengthBytes m.encode.size ++ m.encode.toList).flatten ++ rest) =
      .ok (ms.map Message.reread, rest)) ∧
    Message.receiveMany .blocking (ms.length + 1)
        (ms.map fun m => lengthBytes m.encode.size ++ m.encode.toList).flatten =
      .error (.endOfStream .blocking) ∧
    (∀ m ∈ ms, m.reread.toJson = m.toJson ∧
      (m.reread == m) = m.difficulties.all fun d => d.reread == d) ∧
    (∀ n < 2 ^ 64, (lengthBytes n).length = 8 ∧ lengthOf (lengthBytes n) = n) ∧
    (∀ m : Message, (∃ e, m.frame = .error e) ↔ maxMessageSize < m.encode.size) ∧
    (∀ m : Message, maxMessageSize < m.encode.size →
      m.frame = .error (.refused m.encode.size)) ∧
    (∀ header rest, header.length = 8 → maxMessageSize < lengthOf header →
      Message.receive .blocking (header ++ rest) = .error (.tooLarge (lengthOf header))) := by
  have hfit : ∀ m ∈ [Message.fetchHead, .newBlock wideBlock, .blockAccepted], m.Fits := by
    intro m hm
    simp only [List.mem_cons, List.not_mem_nil, or_false] at hm
    rcases hm with rfl | rfl | rfl
    · exact ⟨nofun, nofun⟩
    · exact wideBlock_message_fits
    · exact ⟨nofun, nofun⟩
  have hsize : ∀ m ∈ [Message.fetchHead, .newBlock wideBlock, .blockAccepted],
      m.encode.size ≤ maxMessageSize := by
    intro m hm
    simp only [List.mem_cons, List.not_mem_nil, or_false] at hm
    rcases hm with rfl | rfl | rfl
    · decide
    · exact wideBlock_message_size
    · decide
  exact ⟨hfit, hsize, frames_carry_messages _ hfit hsize .blocking⟩

/-- **A block with the wide difficulty comes back unequal to itself.** Its frame reads back as
the block with the difficulty at scale zero, which compares unequal to the block sent. -/
theorem wide_block_frame_reads_back_unequal :
    Message.receive .blocking (lengthBytes (Message.newBlock wideBlock).encode.size ++
        (Message.newBlock wideBlock).encode.toList ++ []) =
      .ok (.newBlock wideBlock.reread, []) ∧
    (Message.newBlock wideBlock.reread == .newBlock wideBlock) = false := by
  refine ⟨Message.receive_frame .blocking wideBlock_message_fits wideBlock_message_size [], ?_⟩
  show ((Message.newBlock wideBlock).reread == .newBlock wideBlock) = false
  rw [Message.beq_reread]
  exact congrArg (· && true) wideHeader_difficulty_reread_beq

end WorkLedger
