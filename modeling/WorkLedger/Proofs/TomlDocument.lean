import WorkLedger.Proofs.TomlValues

/-!
# Documents of pairs read back

A document made of lines `key = value`, each key bare and written once, is read as those pairs
at its root, in the order of the lines. This is the document a writer of settings produces, one
setting per line.

* `Grammar.key_bare`: a bare key before ` =` is a key of one part, named by its bytes.
* `Grammar.keyValue_line`: a line `key = value` is read as that key and the value its text reads
  as, with the spans of both.
* `Toml.readLines_keyValue`: one step of the reading of lines over such a line, and
  `Toml.readLines_pairLines`, by induction on the lines, the whole run: each pair is added at
  the end of the root table and the reading stops at the end of the source.
* `Toml.parse_pairLines`: the document's root entries, one for each line.
-/

namespace WorkLedger.Toml.Grammar

open WorkLedger.Toml.Parser

section Keys

variable {kb : List UInt8}

/-- The bytes of a bare key, up to a byte that ends it, are its name. -/
theorem reads_bareKeyName (hne : kb ≠ []) (hkb : ∀ b ∈ kb, isBareKeyByte b = true)
    (hlen : kb.length ≤ unbounded) :
    Reads (do
      match ← peek with
      | some 34 => basicString
      | some 39 => literalString
      | some _ => do let bs ← takeWhile 1 unbounded isBareKeyByte; pure (text bs)
      | none => fail) kb (fun r => ∀ c ∈ r.head?, isBareKeyByte c = false) (text kb) := by
  have hbare : Reads (do let bs ← takeWhile 1 unbounded isBareKeyByte; pure (text bs)) kb
      (fun r => ∀ c ∈ r.head?, isBareKeyByte c = false) (text kb) :=
    Reads.map text ((reads_takeWhile hkb (List.length_pos_of_ne_nil hne) hlen).mono
      fun _ h => .inr h)
  intro input pos rest hd hr
  obtain ⟨x, t, rfl⟩ := List.exists_cons_of_ne_nil hne
  rw [bind_apply, reads_peek (some x) input pos _ (by rw [List.nil_append, hd]) rfl]
  dsimp only
  have hx : ∀ b, some x = some b → isBareKeyByte b = true := fun b h =>
    Option.some.inj h ▸ hkb x List.mem_cons_self
  have hsome : (some x).isSome = true := rfl
  revert hx hsome
  generalize some x = o
  intro hx hsome
  split
  · exact absurd (hx 34 rfl) (by decide)
  · exact absurd (hx 39 rfl) (by decide)
  · rw [List.length_nil, Nat.add_zero]
    exact hbare input pos rest hd hr
  · exact absurd hsome (by decide)

/-- A bare key is read as a key of that name, written as it stands. -/
theorem simpleKey_bare (hne : kb ≠ []) (hkb : ∀ b ∈ kb, isBareKeyByte b = true)
    (hlen : kb.length ≤ unbounded) {input : ByteArray} {pos : Nat} {rest : List UInt8}
    (hd : input.toList.drop pos = kb ++ rest) (hr : ∀ c ∈ rest.head?, isBareKeyByte c = false) :
    simpleKey input pos = .ok (⟨text kb, text kb, ⟨pos, pos + kb.length⟩⟩, pos + kb.length) := by
  have h := reads_bareKeyName hne hkb hlen input pos rest hd hr
  unfold simpleKey
  dsimp only [withSpan]
  -- the definition's match is an auxiliary function of its own, equal to the lemma's only by
  -- unfolding
  erw [h]
  simp only [toList_extract_of_drop hd]

theorem isBlank_of_isBareKeyByte {b : UInt8} (h : isBareKeyByte b = true) : isBlank b = false := by
  simp only [isBareKeyByte, isDigit, Bool.or_eq_true, Bool.and_eq_true, decide_eq_true_eq] at h
  simp only [isBlank, Bool.or_eq_false_iff, decide_eq_false_iff_not]
  constructor <;> rintro rfl <;> revert h <;> decide

/-- The bytes after a bare key: a blank, then an equals sign. -/
theorem drop_after_key {input : ByteArray} {pos : Nat} {rest : List UInt8}
    (hd : input.toList.drop pos = kb ++ 32 :: 61 :: rest) :
    input.toList.drop (pos + kb.length) = [32] ++ 61 :: rest ∧
      input.toList.drop (pos + kb.length + 1) = 61 :: rest := by
  have hsplit : kb ++ 32 :: 61 :: rest = kb ++ ([32] ++ 61 :: rest) := rfl
  have h := drop_add_of_drop (hd.trans hsplit)
  refine ⟨h, ?_⟩
  simpa using drop_add_of_drop h

/-- A bare key before ` =`, with the blank after it. -/
theorem keyPart_bare (hne : kb ≠ []) (hkb : ∀ b ∈ kb, isBareKeyByte b = true)
    (hlen : kb.length ≤ unbounded) {input : ByteArray} {pos : Nat} {rest : List UInt8}
    (hd : input.toList.drop pos = kb ++ 32 :: 61 :: rest) :
    (do blanks; let k ← simpleKey; blanks; pure k : Parser Key) input pos =
      .ok (⟨text kb, text kb, ⟨pos, pos + kb.length⟩⟩, pos + kb.length + 1) := by
  obtain ⟨hkey, -⟩ := drop_after_key hd
  have hfirst : ∀ b ∈ (kb ++ 32 :: 61 :: rest).head?, isBlank b = false := by
    obtain ⟨x, t, rfl⟩ := List.exists_cons_of_ne_nil hne
    simpa using isBlank_of_isBareKeyByte (hkb x List.mem_cons_self)
  rw [bind_apply, reads_no_blanks input pos _ (by rw [List.nil_append, hd]) hfirst,
    List.length_nil, Nat.add_zero]
  dsimp only
  rw [bind_apply, simpleKey_bare hne hkb hlen hd fun c hc => by cases hc; decide]
  dsimp only
  have hblank : Reads blanks [32] (fun r => ∀ b ∈ r.head?, isBlank b = false) () :=
    reads_blanks (by simp [isBlank]) Nat.one_le_two_pow
  rw [bind_apply, hblank input _ _ hkey fun c hc => by cases hc; decide]
  rfl

/-- A bare key before ` =` is a key of one part. -/
theorem key_bare (hne : kb ≠ []) (hkb : ∀ b ∈ kb, isBareKeyByte b = true)
    (hlen : kb.length ≤ unbounded) {input : ByteArray} {pos : Nat} {rest : List UInt8}
    (hd : input.toList.drop pos = kb ++ 32 :: 61 :: rest) :
    key input pos = .ok ([⟨text kb, text kb, ⟨pos, pos + kb.length⟩⟩], pos + kb.length + 1) := by
  obtain ⟨-, heq⟩ := drop_after_key hd
  obtain ⟨e, he, hc⟩ := refuses_byte (ascii '.') input (pos + kb.length + 1) (by
    rw [heq]
    show some 61 ≠ some (ascii '.')
    decide)
  unfold key
  simp only [Parser.tryMap, Parser.context, separated, keyPart_bare hne hkb hlen hd, separated.go,
    he, hc]
  rfl

end Keys

/-! ## A line of a key and a value -/

/-- A line feed ends the line after a value. -/
theorem reads_lineTrailing_newline : Reads lineTrailing [10] (fun _ => True) () := by
  have hcomment : Refuses comment fun u => u.head? = some 10 :=
    Refuses.bind ((refuses_byte _).mono fun u hu => by rw [hu]; decide) _
  have h : Reads lineTrailing ([] ++ ([] ++ [10])) (fun _ => True) () :=
    Reads.bind reads_no_blanks (Reads.bind (Refuses.optional hcomment)
      (Reads.orElse_left reads_newline _) fun _ _ => rfl) fun _ _ c hc => by cases hc; decide
  simpa using h

theorem reads_keyValueSeparator : Reads keyValueSeparator [61] (fun _ => True) () :=
  Reads.context _ (Reads.context _ (reads_byte 61))

section Line

variable {kb vb : List UInt8} {v : Value}

/-- A line `key = value`, its key bare and its value read before the line feed, is read as that
key and value, with the span of each. -/
theorem keyValue_line (hne : kb ≠ []) (hkb : ∀ b ∈ kb, isBareKeyByte b = true)
    (hlen : kb.length ≤ unbounded) (hhead : ∀ c ∈ vb.head?, isBlank c = false)
    (hv : Reads (value valueDepth) vb (fun r => r.head? = some 10) v)
    {input : ByteArray} {pos : Nat} {rest : List UInt8}
    (hd : input.toList.drop pos = kb ++ [32, 61, 32] ++ vb ++ 10 :: rest) :
    keyValue input pos = .ok (([⟨text kb, text kb, ⟨pos, pos + kb.length⟩⟩], v,
      ⟨pos + kb.length + 3, pos + kb.length + 3 + vb.length⟩), pos + kb.length + 3 + vb.length + 1) := by
  have h0 : input.toList.drop pos = kb ++ 32 :: 61 :: (32 :: (vb ++ 10 :: rest)) := by
    rw [hd]
    simp
  have h1 : input.toList.drop (pos + kb.length + 1) = [61] ++ ([32] ++ (vb ++ 10 :: rest)) :=
    (drop_after_key h0).2
  -- the positions as the reading lemmas leave them, after one byte each of bytes
  have h2 : input.toList.drop (pos + kb.length + 1 + ([61] : List UInt8).length) =
      [32] ++ (vb ++ 10 :: rest) :=
    drop_add_of_drop h1
  have h3 : input.toList.drop (pos + kb.length + 1 + ([61] : List UInt8).length +
      ([32] : List UInt8).length) = vb ++ 10 :: rest :=
    drop_add_of_drop h2
  have h4 : input.toList.drop (pos + kb.length + 1 + ([61] : List UInt8).length +
      ([32] : List UInt8).length + vb.length) = [10] ++ rest :=
    drop_add_of_drop h3
  have hblank : Reads blanks [32] (fun r => ∀ b ∈ r.head?, isBlank b = false) () :=
    reads_blanks (by simp [isBlank]) Nat.one_le_two_pow
  have hvalue : ∀ c ∈ (vb ++ 10 :: rest).head?, isBlank c = false := by
    cases vb with
    | nil => intro c hc; cases hc; decide
    | cons x t => simpa using hhead
  unfold keyValue
  rw [bind_apply, key_bare hne hkb hlen h0]
  dsimp only
  unfold Parser.commit
  simp only [bind_apply, reads_keyValueSeparator input _ _ h1 trivial,
    hblank input _ _ h2 hvalue, withSpan, hv input _ (10 :: rest) h3 rfl,
    (Reads.context _ (Reads.context _ reads_lineTrailing_newline)) input _ rest h4 trivial]
  rfl

/-- The text of an integer starts with no blank. -/
theorem toString_int_not_blank (i : Int) :
    ∀ c ∈ (toString i).toUTF8.toList.head?, isBlank c = false := by
  intro c hc
  obtain ⟨x, y, u, h, hx, -⟩ := toString_int_head i [10] rfl
  have hcx : c = x := by
    have hhead := congrArg List.head? h
    rw [List.head?_append, Option.mem_def.1 hc] at hhead
    exact Option.some.inj hhead
  subst hcx
  rcases hx with hx | rfl
  · rw [isDigit_iff] at hx
    simp only [isBlank, Bool.or_eq_false_iff, decide_eq_false_iff_not]
    constructor <;> rintro rfl <;> revert hx <;> decide
  · decide

/-- The text of a string starts with no blank. -/
theorem stringText_not_blank (s : String) :
    ∀ c ∈ (stringText s).toUTF8.toList.head?, isBlank c = false := by
  obtain ⟨x, t, h, hx⟩ := stringText_head s
  rw [h]
  rintro c hc
  cases hc
  rcases hx with rfl | rfl <;> decide

end Line

end WorkLedger.Toml.Grammar

namespace WorkLedger.Toml

open WorkLedger.Toml.Parser WorkLedger.Toml.Grammar

/-- A pair under a single key new to the current table goes at the end of that table. -/
theorem Builder.addPair_single (b : Builder) {k : Key} (item : Item) (span : Span)
    (hnew : lookup b.current k.name = none) :
    b.addPair [k] item span =
      .ok { b with current := b.current ++ [(k, item)], span := b.span.map (fun s => ⟨s.start, span.stop⟩) } := by
  simp [Builder.addPair, descend, hnew]

/-- A key that can stand bare: some letters, digits, hyphens and underscores. -/
def BareKey (key : String) : Prop :=
  key.toUTF8.toList ≠ [] ∧ (∀ b ∈ key.toUTF8.toList, isBareKeyByte b = true) ∧
    key.toUTF8.toList.length ≤ unbounded

instance (key : String) : Decidable (BareKey key) := inferInstanceAs (Decidable (_ ∧ _ ∧ _))

/-- A key is bare when its characters' bytes are, which a key written out as characters shows by
computation. -/
theorem BareKey.of_chars {key : String} (hne : key.toList ≠ [])
    (hall : (key.toList.flatMap String.utf8EncodeChar).all isBareKeyByte = true)
    (hlen : (key.toList.flatMap String.utf8EncodeChar).length ≤ unbounded) : BareKey key := by
  rw [BareKey, Text.Utf8.toList_toUTF8]
  exact ⟨length_flatMap_pos hne, List.all_eq_true.1 hall, hlen⟩

/-- A line `key = value` of a document: a bare key, and the text of a value that reads as `read`
before the line feed. -/
structure PairLine where
  keyBytes : List UInt8
  valueBytes : List UInt8
  read : Value
  keyBytes_ne_nil : keyBytes ≠ []
  bare : ∀ b ∈ keyBytes, isBareKeyByte b = true
  keyBytes_short : keyBytes.length ≤ unbounded
  valueBytes_head : ∀ c ∈ valueBytes.head?, isBlank c = false
  reads : Reads (value valueDepth) valueBytes (fun r => r.head? = some 10) read

namespace PairLine

/-- The bytes of the line, with a blank on each side of the equals sign. -/
def bytes (l : PairLine) : List UInt8 := l.keyBytes ++ [32, 61, 32] ++ l.valueBytes ++ [10]

/-- The name of the line's key. -/
def name (l : PairLine) : String := text l.keyBytes

theorem bytes_head (l : PairLine) : ∃ x t, l.bytes = x :: t ∧ isBareKeyByte x = true := by
  obtain ⟨x, t, hx⟩ := List.exists_cons_of_ne_nil l.keyBytes_ne_nil
  exact ⟨x, t ++ [32, 61, 32] ++ l.valueBytes ++ [10], by simp [bytes, hx],
    l.bare x (by rw [hx]; exact List.mem_cons_self)⟩

/-- The bytes of a line are those of the text `key = value` and a line feed. -/
theorem bytes_eq_text (l : PairLine) {key value : String} (hk : l.keyBytes = key.toUTF8.toList)
    (hv : l.valueBytes = value.toUTF8.toList) :
    l.bytes = (key ++ " = " ++ value ++ "\n").toUTF8.toList := by
  have hsep : " = ".toList.flatMap String.utf8EncodeChar = [32, 61, 32] := by decide
  have hlf : "\n".toList.flatMap String.utf8EncodeChar = [10] := by decide
  simp only [bytes, hk, hv, Text.Utf8.toList_toUTF8, String.toList_append, List.flatMap_append,
    hsep, hlf]

/-- The line `key = i` of an integer within the range of TOML. -/
def integer (key : String) (hkey : BareKey key) (i : Int) (hlo : smallestInteger ≤ i)
    (hhi : i ≤ largestInteger) : PairLine where
  keyBytes := key.toUTF8.toList
  valueBytes := (toString i).toUTF8.toList
  read := .integer i
  keyBytes_ne_nil := hkey.1
  bare := hkey.2.1
  keyBytes_short := hkey.2.2
  valueBytes_head := toString_int_not_blank i
  reads := reads_value_integer valueDepth hlo hhi

/-- The line `key = s` of a string, written as `stringText` writes it. -/
def string (key : String) (hkey : BareKey key) (s : String) (hs : s.utf8ByteSize ≤ unbounded) :
    PairLine where
  keyBytes := key.toUTF8.toList
  valueBytes := (stringText s).toUTF8.toList
  read := .string s
  keyBytes_ne_nil := hkey.1
  bare := hkey.2.1
  keyBytes_short := hkey.2.2
  valueBytes_head := stringText_not_blank s
  reads := reads_value_string valueDepth hs

@[simp] theorem read_integer (key : String) (hkey : BareKey key) (i : Int)
    (hlo : smallestInteger ≤ i) (hhi : i ≤ largestInteger) :
    (integer key hkey i hlo hhi).read = .integer i := rfl

@[simp] theorem read_string (key : String) (hkey : BareKey key) (s : String)
    (hs : s.utf8ByteSize ≤ unbounded) : (string key hkey s hs).read = .string s := rfl

theorem bytes_integer (key : String) (hkey : BareKey key) (i : Int) (hlo : smallestInteger ≤ i)
    (hhi : i ≤ largestInteger) :
    (integer key hkey i hlo hhi).bytes = (key ++ " = " ++ toString i ++ "\n").toUTF8.toList :=
  bytes_eq_text _ rfl rfl

theorem bytes_string (key : String) (hkey : BareKey key) (s : String)
    (hs : s.utf8ByteSize ≤ unbounded) :
    (string key hkey s hs).bytes = (key ++ " = " ++ stringText s ++ "\n").toUTF8.toList :=
  bytes_eq_text _ rfl rfl

theorem name_integer (key : String) (hkey : BareKey key) (i : Int) (hlo : smallestInteger ≤ i)
    (hhi : i ≤ largestInteger) : (integer key hkey i hlo hhi).name = key :=
  text_toUTF8 key

theorem name_string (key : String) (hkey : BareKey key) (s : String)
    (hs : s.utf8ByteSize ≤ unbounded) : (string key hkey s hs).name = key :=
  text_toUTF8 key

end PairLine

/-- A key-value line read at `pos`, added to the builder, and blanks read after it: the reading
goes on from there. -/
theorem readLines_keyValue {input : ByteArray} {pos pos' pos'' : Nat} {b b' : Builder} {x : UInt8}
    {keys : List Key} {v : Value} {span : Span} (fuel : Nat) (hget : input[pos]? = some x)
    (hx : isBareKeyByte x = true) (hkv : keyValue input pos = .ok ((keys, v, span), pos'))
    (hadd : b.addPair keys (.value v span) span = .ok b')
    (hblanks : blanks input pos' = .ok ((), pos'')) (hmoved : pos < pos'') :
    readLines input (fuel + 1) pos b = readLines input fuel pos'' b' := by
  have hcls : ∀ y, some x = some y → isBareKeyByte y = true := fun y h => Option.some.inj h ▸ hx
  have hsome : (some x).isSome = true := rfl
  rw [readLines]
  dsimp only
  rw [hget]
  revert hcls hsome
  generalize some x = o
  intro hcls hsome
  -- the line is read as a key-value pair: every other case starts with a byte no key starts with
  split
  next e heq =>
    split at heq
    · exact absurd hsome (by decide)
    · exact absurd (hcls 35 rfl) (by decide)
    · exact absurd (hcls 91 rfl) (by decide)
    · exact absurd (hcls 10 rfl) (by decide)
    · exact absurd (hcls 13 rfl) (by decide)
    · simp [Parser.commit, hkv, hadd] at heq
  next b₁ p₁ heq =>
    split at heq
    · exact absurd hsome (by decide)
    · exact absurd (hcls 35 rfl) (by decide)
    · exact absurd (hcls 91 rfl) (by decide)
    · exact absurd (hcls 10 rfl) (by decide)
    · exact absurd (hcls 13 rfl) (by decide)
    · simp only [Parser.commit, hkv, hadd, Except.ok.injEq, Prod.mk.injEq] at heq
      obtain ⟨rfl, rfl⟩ := heq
      simp only [hblanks, if_neg (Nat.not_le.2 hmoved)]

/-- The reading of lines stops at the end of the source. -/
theorem readLines_end {input : ByteArray} {pos : Nat} (b : Builder) (fuel : Nat)
    (hget : input[pos]? = none) : readLines input (fuel + 1) pos b = .ok (b, pos) := by
  rw [readLines]
  dsimp only
  rw [hget]
  rfl

theorem lookup_eq_none {entries : List (Key × Item)} {name : String}
    (h : name ∉ entries.map (·.1.name)) : lookup entries name = none := by
  simp only [lookup, Option.map_eq_none_iff, List.find?_eq_none, beq_iff_eq]
  intro e he hname
  exact h (List.mem_map.2 ⟨e, he, hname⟩)

/-- After a line feed come blanks only where a line could not start with a key. -/
theorem blanks_before_lines {input : ByteArray} {pos : Nat} (ls : List PairLine)
    (hd : input.toList.drop pos = ls.flatMap PairLine.bytes) :
    blanks input pos = .ok ((), pos) := by
  have hhead : ∀ c ∈ (ls.flatMap PairLine.bytes).head?, isBlank c = false := by
    cases ls with
    | nil => nofun
    | cons l ls =>
      obtain ⟨x, t, hxt, hx⟩ := l.bytes_head
      simpa [hxt] using isBlank_of_isBareKeyByte hx
  exact reads_no_blanks input pos _ (by rw [List.nil_append, hd]) hhead

/-- **Lines of pairs.** Lines `key = value` whose keys are new to the current table and to each
other are added to that table in their order, and the reading stops at the end of the source. -/
theorem readLines_pairLines {input : ByteArray} :
    ∀ (ls : List PairLine) (fuel pos : Nat) (b : Builder), ls.length < fuel →
      input.toList.drop pos = ls.flatMap PairLine.bytes → b.span = none →
      (b.current.map (·.1.name) ++ ls.map PairLine.name).Nodup →
      ∃ entries, readLines input fuel pos b =
          .ok ({ b with current := b.current ++ entries }, pos + (ls.flatMap PairLine.bytes).length) ∧
        List.Forall₂ (fun e l => e.1.name = l.name ∧ ∃ span, e.2 = .value l.read span) entries ls
  | [], fuel + 1, pos, b, _, hd, _, _ => by
    refine ⟨[], ?_, .nil⟩
    rw [readLines_end b fuel (getElem?_of_drop_nil hd)]
    simp
  | l :: ls, fuel + 1, pos, b, hfuel, hd, hspan, hnodup => by
    obtain ⟨x, t, hxt, hx⟩ := l.bytes_head
    have hget : input[pos]? = some x := by
      rw [getElem?_of_drop (by rw [hd, List.flatMap_cons, hxt, List.cons_append])]
    have hd' : input.toList.drop pos =
        l.keyBytes ++ [32, 61, 32] ++ l.valueBytes ++ 10 :: ls.flatMap PairLine.bytes := by
      rw [hd, List.flatMap_cons, PairLine.bytes]
      simp
    have hnew : lookup b.current l.name = none :=
      lookup_eq_none fun h => (List.nodup_append.1 hnodup).2.2 _ h _ List.mem_cons_self rfl
    have hlen : pos + l.keyBytes.length + 3 + l.valueBytes.length + 1 = pos + l.bytes.length := by
      simp only [PairLine.bytes, List.length_append, List.length_cons, List.length_nil]
      omega
    have hnext : input.toList.drop (pos + l.bytes.length) = ls.flatMap PairLine.bytes :=
      drop_add_of_drop (by rw [hd, List.flatMap_cons])
    have hkv := keyValue_line l.keyBytes_ne_nil l.bare l.keyBytes_short l.valueBytes_head l.reads hd'
    rw [hlen] at hkv
    -- the entry of the line, as the key-value lemma gives it
    let entry : Key × Item := (⟨text l.keyBytes, text l.keyBytes, ⟨pos, pos + l.keyBytes.length⟩⟩,
      .value l.read ⟨pos + l.keyBytes.length + 3, pos + l.keyBytes.length + 3 + l.valueBytes.length⟩)
    obtain ⟨entries, hrun, hrel⟩ := readLines_pairLines ls fuel (pos + l.bytes.length)
      { b with current := b.current ++ [entry] } (by simp at hfuel; omega) hnext hspan (by
        simpa [entry, PairLine.name, List.nodup_append, List.map_append, and_assoc] using hnodup)
    refine ⟨entry :: entries, ?_, .cons ⟨rfl, _, rfl⟩ hrel⟩
    rw [readLines_keyValue fuel hget hx hkv (Builder.addPair_single b _ _ hnew)
      (blanks_before_lines ls hnext) (by simp [PairLine.bytes]), hspan, Option.map_none,
      List.flatMap_cons, List.length_append, ← Nat.add_assoc]
    simpa only [List.append_assoc, List.singleton_append, hspan, entry] using hrun

theorem length_le_length_bytes (ls : List PairLine) :
    ls.length ≤ (ls.flatMap PairLine.bytes).length := by
  induction ls with
  | nil => exact Nat.le_refl 0
  | cons l ls ih =>
    simp only [List.length_cons, List.flatMap_cons, List.length_append, PairLine.bytes,
      List.length_nil]
    omega

/-- **A document of pairs.** A source of lines `key = value`, with bare keys all different, reads
as those pairs at its root, in their order. -/
theorem parse_pairLines (source : String) (ls : List PairLine)
    (hsrc : source.toUTF8.toList = ls.flatMap PairLine.bytes) (hnodup : (ls.map PairLine.name).Nodup) :
    ∃ entries, parse source = .ok entries ∧
      List.Forall₂ (fun e l => e.1.name = l.name ∧ ∃ span, e.2 = .value l.read span) entries ls := by
  have hd : source.toUTF8.toList.drop 0 = ls.flatMap PairLine.bytes := hsrc
  have hsize : source.toUTF8.size = (ls.flatMap PairLine.bytes).length := by
    rw [← hsrc, ByteArray.length_toList]
  -- no byte order mark: the source starts with a key, or is empty
  have hbom : standsAt source.toUTF8 0 [0xEF, 0xBB, 0xBF] = false := by
    refine Bool.eq_false_iff.2 fun h => ?_
    rw [standsAt_iff, hd] at h
    cases ls with
    | nil => simp at h
    | cons l ls =>
      obtain ⟨x, t, hxt, hx⟩ := l.bytes_head
      rw [List.flatMap_cons, hxt, List.cons_append, List.cons_prefix_cons] at h
      rw [← h.1] at hx
      exact absurd hx (by decide)
  obtain ⟨entries, hrun, hrel⟩ := readLines_pairLines ls (source.toUTF8.size + 1) 0 Builder.empty
    (by have := length_le_length_bytes ls; omega) hd rfl (by simpa [Builder.empty] using hnodup)
  refine ⟨entries, ?_, hrel⟩
  simp only [parse, hbom, blanks_before_lines ls hd, hrun, Nat.zero_add, ← hsize, Nat.lt_irrefl,
    if_false, Bool.false_eq_true]
  rfl

end WorkLedger.Toml
