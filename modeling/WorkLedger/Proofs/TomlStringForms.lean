import WorkLedger.Proofs.TomlStrings

/-!
# TOML strings read back in every form

`stringText` writes a string in one of four forms (`StringForm.of`), and the string parser reads
it back as the string it was (`Grammar.string_reads_stringText`).

The multi-line forms hold raw quotes, in runs of at most two: the writer escapes the third double
quote of a run, and writes a string as a multi-line literal one only when it has no run of three
apostrophes (`longestRun`). The reader takes such a body as a stretch without quotes, then runs
of one or two quotes each followed by such a stretch (`QuoteRuns`), then the quotes before the
closing ones (`quoteRuns_of_not_three`). For a multi-line basic string the loop of
`multiLineBody` reads the runs (`Grammar.go_reads`); for a multi-line literal one a repetition
does (`Grammar.reads_multiLineLiteralString`).

The string parser tries the forms in a fixed order, and each form that comes before a string's
own fails on its text without committing.
-/

namespace WorkLedger.Toml

/-! ## Runs of quotes -/

section QuoteRuns

variable {α : Type}

/-- A list as the body of a multi-line string is read: runs of one or two quotes `q`, each
followed by a stretch without `q`. -/
inductive QuoteRuns (q : α) : List α → Prop
  | nil : QuoteRuns q []
  | cons {k : Nat} {seg ps : List α} : 1 ≤ k → k ≤ 2 → seg ≠ [] → (∀ x ∈ seg, x ≠ q) →
      QuoteRuns q ps → QuoteRuns q (List.replicate k q ++ seg ++ ps)

/-- **The shape of a multi-line body.** A list with no three quotes in a row is a stretch
without quotes, then runs of quotes each followed by such a stretch, then at most two quotes. -/
theorem quoteRuns_of_not_three [DecidableEq α] (q : α) :
    ∀ ps : List α, ¬[q, q, q] <:+: ps →
      ∃ seg body k, ps = seg ++ body ++ List.replicate k q ∧ (∀ x ∈ seg, x ≠ q) ∧
        QuoteRuns q body ∧ k ≤ 2
  | [], _ => ⟨[], [], 0, rfl, nofun, .nil, by omega⟩
  | x :: ps, h3 => by
    obtain ⟨seg, body, k, rfl, hseg, hbody, hk⟩ :=
      quoteRuns_of_not_three q ps fun h => h3 (h.trans (List.suffix_cons x ps).isInfix)
    by_cases hx : x = q
    · subst hx
      by_cases hs : seg = []
      · subst hs
        cases hbody with
        | nil =>
          -- only quotes: one more than before, still at most two
          refine ⟨[], [], k + 1, by simp [List.replicate_succ], nofun, .nil, ?_⟩
          by_contra hk3
          obtain rfl : k = 2 := by omega
          exact h3 (by simp [List.replicate])
        | @cons j s b hj1 hj2 hs hns hb =>
          -- the quote joins the first run, which stays at most two long
          have hj : j + 1 ≤ 2 := by
            by_contra hj3
            obtain rfl : j = 2 := by omega
            exact h3 ⟨[], s ++ b ++ List.replicate k x, by simp [List.replicate]⟩
          refine ⟨[], List.replicate (j + 1) x ++ s ++ b, k, by simp [List.replicate_succ],
            nofun, .cons (by omega) hj hs hns hb, hk⟩
      · exact ⟨[], List.replicate 1 x ++ seg ++ body, k, by simp, nofun,
          .cons le_rfl (by omega) hs hseg hbody, hk⟩
    · exact ⟨x :: seg, body, k, by simp, by simpa [hx] using hseg, hbody, hk⟩

variable {q : α} {f : α → List UInt8} {b : UInt8}

theorem flatMap_replicate_of_eq (hq : f q = [b]) (k : Nat) :
    (List.replicate k q).flatMap f = List.replicate k b := by
  induction k with
  | zero => rfl
  | succ k ih => rw [List.replicate_succ, List.flatMap_cons, ih, hq, List.replicate_succ]; rfl

/-- The bytes of quote runs, when there are any, start with the quote's byte. -/
theorem QuoteRuns.head_flatMap (hq : f q = [b]) {ps : List α} (h : QuoteRuns q ps)
    {r : List UInt8} (hr : r.head? = some b) : (ps.flatMap f ++ r).head? = some b := by
  cases h with
  | nil => exact hr
  | @cons k seg ps hk _ _ _ _ =>
    obtain ⟨k, rfl⟩ : ∃ j, k = j + 1 := ⟨k - 1, by omega⟩
    simp [List.replicate_succ, hq]

end QuoteRuns

/-! ## The longest run of a character -/

/-- One character of the count of `longestRun`: the longest run so far and the current one. -/
def runStep (c : Char) (acc : Nat × Nat) (x : Char) : Nat × Nat :=
  if x = c then (max acc.1 (acc.2 + 1), acc.2 + 1) else (acc.1, 0)

theorem longestRun_eq (c : Char) (s : List Char) :
    longestRun c s = (s.foldl (runStep c) (0, 0)).1 := rfl

theorem le_foldl_runStep (c : Char) :
    ∀ (s : List Char) (acc : Nat × Nat), acc.1 ≤ (s.foldl (runStep c) acc).1
  | [], _ => le_rfl
  | x :: s, acc => by
    refine le_trans ?_ (le_foldl_runStep c s _)
    unfold runStep
    split <;> simp

/-- After `n` more characters `c`, the current run has grown by `n`, and so has the longest. -/
theorem add_le_foldl_runStep (c : Char) :
    ∀ (n : Nat) (acc : Nat × Nat), 0 < n →
      acc.2 + n ≤ ((List.replicate n c).foldl (runStep c) acc).1
  | 0, _, h => absurd h (Nat.lt_irrefl 0)
  | n + 1, acc, _ => by
    rw [List.replicate_succ, List.foldl_cons]
    have hstep : runStep c acc c = (max acc.1 (acc.2 + 1), acc.2 + 1) := if_pos rfl
    rcases Nat.eq_zero_or_pos n with rfl | hn
    · simp [hstep]
    · have := add_le_foldl_runStep c n (runStep c acc c) hn
      rw [hstep] at this ⊢
      simp only at this
      omega

/-- A run of `n` characters `c` makes the longest run at least `n` long. -/
theorem le_longestRun {c : Char} {s : List Char} {n : Nat} (hn : 0 < n)
    (h : List.replicate n c <:+: s) : n ≤ longestRun c s := by
  obtain ⟨a, t, rfl⟩ := h
  rw [longestRun_eq, List.foldl_append, List.foldl_append]
  calc n ≤ (a.foldl (runStep c) (0, 0)).2 + n := Nat.le_add_left n _
    _ ≤ ((List.replicate n c).foldl (runStep c) (a.foldl (runStep c) (0, 0))).1 :=
      add_le_foldl_runStep c n _ hn
    _ ≤ _ := le_foldl_runStep c t _

theorem not_mem_of_longestRun_eq_zero {c : Char} {s : List Char} (h : longestRun c s = 0) :
    c ∉ s := fun hc => by
  obtain ⟨a, t, rfl⟩ := List.append_of_mem hc
  have : 1 ≤ longestRun c (a ++ c :: t) :=
    le_longestRun Nat.one_pos (show List.replicate 1 c <:+: a ++ c :: t from ⟨a, t, by simp⟩)
  omega

theorem not_three_of_longestRun_le_two {c : Char} {s : List Char} (h : longestRun c s ≤ 2) :
    ¬[c, c, c] <:+: s := fun h3 => by
  have : 3 ≤ longestRun c s := le_longestRun (by omega) (show List.replicate 3 c <:+: s from h3)
  omega

/-! ## The form of a string -/

theorem StringForm.of_eq_literal {cs : List Char} (h : StringForm.of cs = .literal) :
    ∀ c ∈ cs, isControl c = false ∧ c ≠ '\'' ∧ c ≠ '\n' := by
  dsimp only [StringForm.of] at h
  split_ifs at h with h1 h2
  simp at h2
  obtain ⟨⟨hctl, happ⟩, hnl⟩ := h2
  intro c hc
  exact ⟨hctl c hc, fun e => not_mem_of_longestRun_eq_zero happ (e ▸ hc), fun e => hnl (e ▸ hc)⟩

theorem StringForm.of_eq_multiLineLiteral {cs : List Char}
    (h : StringForm.of cs = .multiLineLiteral) :
    (∀ c ∈ cs, isControl c = false) ∧ ¬['\'', '\'', '\''] <:+: cs := by
  dsimp only [StringForm.of] at h
  split_ifs at h with h1 h2 h3 h4
  simp at h4
  exact ⟨h4.1, not_three_of_longestRun_le_two h4.2⟩

/-! ## Bytes of pieces -/

/-- The first byte of a piece: a line feed only for a raw line feed, a double quote only for a
raw quote, and never a carriage return. -/
theorem Piece.bytes_head {x : Piece} (hx : x.Valid) :
    ∃ b t, x.bytes = b :: t ∧ (b = 10 → x = .newline) ∧ (b = 34 → x = .quote) ∧ b ≠ 13 := by
  cases x with
  | plain c =>
    obtain ⟨hq, he⟩ := hx
    simp only [escapedInBasic, Bool.or_eq_false_iff, decide_eq_false_iff_not] at he
    obtain ⟨⟨-, hlow⟩, -⟩ := he
    have hq' : c.toNat ≠ 34 := fun h => hq (Char.toNat_inj.1 (show c.toNat = '"'.toNat from h))
    obtain ⟨b, t, hbt⟩ := List.exists_cons_of_ne_nil (String.utf8EncodeChar_ne_nil (c := c))
    have hb : (Piece.plain c).bytes = b :: t := by
      rw [Piece.bytes, Piece.text, Text.Utf8.toList_toUTF8, ← hbt]
      simp
    have hval := mem_utf8EncodeChar (hbt ▸ List.mem_cons_self : b ∈ String.utf8EncodeChar c)
    refine ⟨b, t, hb, fun h => ?_, fun h => ?_, fun h => ?_⟩ <;> subst h <;> simp at hval <;> omega
  | escape c =>
    obtain ⟨e, tail, hb, -⟩ := Grammar.escape_bytes hx
    exact ⟨92, e :: tail, hb, fun h => absurd h (by decide), fun h => absurd h (by decide),
      by decide⟩
  | newline => exact ⟨10, [], by rw [Piece.bytes, Text.Utf8.toList_toUTF8]; decide, fun _ => rfl,
      by decide, by decide⟩
  | quote => exact ⟨34, [], by rw [Piece.bytes, Text.Utf8.toList_toUTF8]; decide, by decide,
      fun _ => rfl, by decide⟩

theorem Piece.bytes_quote : Piece.quote.bytes = [34] := by
  rw [Piece.bytes, Text.Utf8.toList_toUTF8]
  decide

/-! ## Bytes of characters -/

theorem char_eq_iff_toNat {c d : Char} : c = d ↔ c.toNat = d.toNat :=
  ⟨fun h => h ▸ rfl, fun h => Char.toNat_inj.1 h⟩

/-- A byte of a character that is no control character and no apostrophe is a byte of a literal
string, or the line feed that the character is. -/
theorem literal_bytes {c : Char} (hc : isControl c = false) (hq : c ≠ '\'') {b : UInt8}
    (hb : b ∈ String.utf8EncodeChar c) : Grammar.isLiteralByte b = true ∨ b = 10 ∧ c = '\n' := by
  have hq' : c.toNat ≠ 39 := fun h => hq (char_eq_iff_toNat.2 h)
  simp only [isControl, Bool.or_eq_false_iff, Bool.and_eq_false_iff, decide_eq_false_iff_not,
    bne_eq_false_iff_eq] at hc
  rw [Grammar.isLiteralByte_iff]
  rcases mem_utf8EncodeChar hb with ⟨hlt, heq⟩ | hhigh
  · by_cases h10 : c.toNat = 10
    · right
      exact ⟨UInt8.toNat_inj.1 (by rw [heq, h10]; rfl), char_eq_iff_toNat.2 h10⟩
    · left
      have htab : '\t'.toNat = 9 := rfl
      have hlf : '\n'.toNat = 10 := rfl
      rw [char_eq_iff_toNat, char_eq_iff_toNat, htab, hlf] at hc
      omega
  · left
    omega

/-- The first byte of characters is the first character itself when that is ASCII. -/
theorem flatMap_utf8EncodeChar_head {cs : List Char} (hne : cs ≠ []) (r : List UInt8) :
    ∃ c x t, cs.head? = some c ∧ cs.flatMap String.utf8EncodeChar ++ r = x :: t ∧
      ∀ n < 128, x.toNat = n → c.toNat = n := by
  obtain ⟨c, cs, rfl⟩ := List.exists_cons_of_ne_nil hne
  obtain ⟨x, t, h⟩ := List.exists_cons_of_ne_nil (String.utf8EncodeChar_ne_nil (c := c))
  refine ⟨c, x, t ++ cs.flatMap String.utf8EncodeChar ++ r, rfl, by simp [h], fun n hn hx => ?_⟩
  rcases mem_utf8EncodeChar (h ▸ List.mem_cons_self : x ∈ String.utf8EncodeChar c) with
    ⟨-, heq⟩ | hhigh <;> omega

/-- The characters stay as they are when there is no carriage return among them. -/
theorem unixLineChars_of_not_mem : ∀ cs : List Char, '\r' ∉ cs → Grammar.unixLineChars cs = cs
  | [], _ => rfl
  | c :: cs, h => by
    have hc : c ≠ '\r' := fun hc => h (hc ▸ List.mem_cons_self)
    have ih := unixLineChars_of_not_mem cs fun hm => h (List.mem_cons_of_mem c hm)
    rw [Grammar.unixLineChars.eq_def]
    split <;> simp_all

namespace Grammar

open WorkLedger.Toml.Parser

/-! ## Runs of quotes inside a multi-line string -/

section Runs

variable {q : Char} {b : UInt8}

/-- After a quote inside a body, any byte but the quote, left unread. -/
theorem reads_notQuote {x : UInt8} (hx : x ≠ ascii q) :
    Reads (do let _ ← byteIf (· ≠ ascii q)) [x] (fun _ => True) () :=
  Reads.skip (reads_byteIf (by simpa using hx))

theorem refuses_notQuote (q : Char) :
    Refuses (do let _ ← byteIf (· ≠ ascii q)) fun u => u.head? = some (ascii q) :=
  Refuses.bind ((refuses_byteIf _).mono fun u hu c hc => by simp_all) _

/-- One or two quotes inside a body, before a byte that is none. -/
theorem reads_quoteRun (hb : ascii q = b) (h₁ : q.toString.toUTF8.toList = [b])
    (h₂ : (String.ofList [q, q]).toUTF8.toList = [b, b]) {k : Nat} (hk1 : 1 ≤ k) (hk2 : k ≤ 2) :
    Reads (quotes q (do let _ ← byteIf (· ≠ ascii q))) (List.replicate k b)
      (fun r => ∃ x r', r = x :: r' ∧ x ≠ b) (String.ofList (List.replicate k q)) := by
  subst hb
  rintro input pos _ hd ⟨x, r', rfl, hx⟩
  obtain rfl | rfl : k = 1 ∨ k = 2 := by omega
  · have h := reads_quotes_one h₁ h₂ (reads_notQuote hx) (refuses_notQuote q)
    rw [h input pos _ hd ⟨⟨r', rfl, trivial⟩, fun r'' h => absurd (List.cons.inj h).1 hx⟩]
    simp only [List.replicate, ← String.singleton_eq_ofList]
    rfl
  · exact reads_quotes_two h₂ (reads_notQuote hx) input pos _ hd ⟨r', rfl, trivial⟩

/-- Three quotes are no run inside a body. -/
theorem refuses_quoteRun (hb : ascii q = b) (h₁ : q.toString.toUTF8.toList = [b])
    (h₂ : (String.ofList [q, q]).toUTF8.toList = [b, b]) :
    Refuses (quotes q (do let _ ← byteIf (· ≠ ascii q))) fun u => ∃ r, u = b :: b :: b :: r := by
  subst hb
  exact (refuses_quotes h₁ h₂ (refuses_notQuote q)).mono
    fun _ ⟨r, hu⟩ => ⟨_ :: _ :: r, hu, rfl, fun _ h => by rw [← (List.cons.inj h).2]; rfl⟩

/-- Three quotes do not start two quotes and a byte that is none. -/
theorem not_closing_prefix {r : List UInt8} (hr : r.head? ≠ some b) :
    ¬[b, b, b] <+: b :: b :: r ∧ ¬[b, b, b] <+: b :: r := by
  constructor
  · rintro ⟨t, ht⟩
    simp only [List.cons_append, List.cons.injEq, true_and] at ht
    simp [← ht] at hr
  · rintro ⟨t, ht⟩
    simp only [List.cons_append, List.cons.injEq, true_and] at ht
    simp [← ht] at hr

/-- The quotes that end a multi-line body: up to two quotes of the body before the three that
close the string. -/
theorem reads_closingRun (h₁ : q.toString.toUTF8.toList = [b])
    (h₂ : (String.ofList [q, q]).toUTF8.toList = [b, b]) {t : String}
    (ht : t.toUTF8.toList = [b, b, b]) {k : Nat} (hk : k ≤ 2) :
    Reads (optional (quotes q (literal t))) (List.replicate k b)
      (fun r => ∃ r', r = b :: b :: b :: r' ∧ r'.head? ≠ some b)
      (if k = 0 then none else some (String.ofList (List.replicate k q))) := by
  rintro input pos _ hd ⟨r', rfl, hr'⟩
  obtain ⟨h2, h1⟩ := not_closing_prefix hr'
  obtain rfl | rfl | rfl : k = 0 ∨ k = 1 ∨ k = 2 := by omega
  · have h := Refuses.optional (refuses_quotes h₁ h₂ (refuses_literal t))
    refine h input pos _ hd ⟨b :: b :: r', rfl, ?_, fun r'' hr'' => ?_⟩
    · rwa [ht]
    · rw [ht, (List.cons.inj hr'').2.symm]
      exact h1
  · have h := (reads_quotes_one h₁ h₂ (reads_literal t) (refuses_literal _)).optional
    rw [ht] at h
    rw [h input pos _ hd ⟨⟨r', rfl, trivial⟩, fun r'' hr'' => by
      rw [(List.cons.inj hr'').2.symm]; exact h2⟩]
    simp only [List.replicate, ← String.singleton_eq_ofList]
    rfl
  · have h := (reads_quotes_two h₂ (reads_literal t)).optional
    rw [ht] at h
    exact h input pos _ hd ⟨r', rfl, trivial⟩

theorem replicate_append_closing (k : Nat) (r : List UInt8) :
    List.replicate k b ++ b :: b :: b :: r = b :: b :: b :: (List.replicate k b ++ r) := by
  rw [show b :: b :: b :: r = List.replicate 3 b ++ r from rfl, ← List.append_assoc,
    List.replicate_append_replicate, Nat.add_comm, ← List.replicate_append_replicate,
    List.append_assoc]
  rfl

end Runs

theorem ascii_quote : ascii '"' = 34 := rfl

theorem ascii_apostrophe : ascii '\'' = 39 := rfl

theorem quote_bytes : '"'.toString.toUTF8.toList = [34] := by
  rw [Text.Utf8.toList_toUTF8]
  decide

theorem quote_pair_bytes : (String.ofList ['"', '"']).toUTF8.toList = [34, 34] := by
  rw [Text.Utf8.toList_toUTF8]
  decide

theorem closing_bytes : "\"\"\"".toUTF8.toList = [34, 34, 34] := by
  rw [Text.Utf8.toList_toUTF8]
  decide

theorem apostrophe_bytes : '\''.toString.toUTF8.toList = [39] := by
  rw [Text.Utf8.toList_toUTF8]
  decide

theorem apostrophe_pair_bytes : (String.ofList ['\'', '\'']).toUTF8.toList = [39, 39] := by
  rw [Text.Utf8.toList_toUTF8]
  decide

theorem literal_closing_bytes : "'''".toUTF8.toList = [39, 39, 39] := by
  rw [Text.Utf8.toList_toUTF8]
  decide

/-! ## Multi-line basic strings -/

/-- The bytes of a stretch without raw quotes start with a byte other than the double quote. -/
theorem bytes_head_ne_quote {seg : List Piece} (hvalid : ∀ x ∈ seg, x.Valid) (hne : seg ≠ [])
    (hnq : ∀ x ∈ seg, x ≠ .quote) (r : List UInt8) :
    ∃ x r', seg.flatMap Piece.bytes ++ r = x :: r' ∧ x ≠ 34 := by
  obtain ⟨s, seg, rfl⟩ := List.exists_cons_of_ne_nil hne
  obtain ⟨b, t, hb, -, h34, -⟩ := Piece.bytes_head (hvalid s List.mem_cons_self)
  exact ⟨b, t ++ seg.flatMap Piece.bytes ++ r, by simp [hb],
    fun h => hnq s List.mem_cons_self (h34 h)⟩

/-- A stretch of pieces without raw quotes, before a double quote, is read as chunks of a
multi-line string whose texts join to its characters. -/
theorem readsMany_multiLineChunk {seg : List Piece} (hvalid : ∀ x ∈ seg, x.Valid)
    (hnq : ∀ x ∈ seg, x ≠ .quote)
    (hlen : ((seg.map Piece.char).flatMap String.utf8EncodeChar).length ≤ unbounded) :
    ∃ vs, ReadsMany multiLineChunk (fun r => r.head? = some 34) (seg.flatMap Piece.bytes) vs ∧
      String.join vs = String.ofList (seg.map Piece.char) := by
  have h := readsMany_chunks (fun _ hpre hne hl => reads_multiLineChunk_run hpre hne hl)
    refuses_multiLineChunk seg hvalid
    (fun x hx hnp => reads_multiLineChunk_single (hvalid x hx) hnp (hnq x hx)) [] (by simp)
    (by simpa using hlen)
  simpa using h

/-- **The loop of a multi-line body.** Runs of quotes, each followed by chunks, are read up to
the three double quotes that close the string. -/
theorem go_reads {body : List Piece} (hb : QuoteRuns .quote body) (hvalid : ∀ x ∈ body, x.Valid)
    (hlen : ((body.map Piece.char).flatMap String.utf8EncodeChar).length ≤ unbounded) :
    ∀ (input : ByteArray) (fuel pos : Nat) (acc : String) (rest : List UInt8),
      input.toList.drop pos = body.flatMap Piece.bytes ++ 34 :: 34 :: 34 :: rest →
      (body.flatMap Piece.bytes).length < fuel →
      multiLineBody.go input fuel pos acc =
        .ok (acc ++ String.ofList (body.map Piece.char),
          pos + (body.flatMap Piece.bytes).length) := by
  induction hb with
  | nil =>
    intro input fuel pos acc rest hd hfuel
    obtain ⟨fuel, rfl⟩ : ∃ f, fuel = f + 1 := ⟨fuel - 1, by simp at hfuel; omega⟩
    rw [multiLineBody.go, (Refuses.optional (refuses_quoteRun ascii_quote quote_bytes quote_pair_bytes))
      input pos _ (by simpa using hd) ⟨rest, rfl⟩]
    simp
  | @cons k seg ps hk1 hk2 hseg hnq hps ih =>
    intro input fuel pos acc rest hd hfuel
    obtain ⟨fuel, rfl⟩ : ∃ f, fuel = f + 1 := ⟨fuel - 1, by omega⟩
    have hvs : ∀ x ∈ seg, x.Valid := fun x hx => hvalid x (by simp [hx])
    have hvp : ∀ x ∈ ps, x.Valid := fun x hx => hvalid x (by simp [hx])
    simp only [List.map_append, List.flatMap_append, List.length_append] at hlen
    simp only [List.flatMap_append, flatMap_replicate_of_eq Piece.bytes_quote,
      List.append_assoc] at hd hfuel ⊢
    obtain ⟨vs, hmany, hj⟩ := readsMany_multiLineChunk hvs hnq (by omega)
    -- the run of quotes, then the chunks up to the next double quote
    have hquotes := (reads_quoteRun ascii_quote quote_bytes quote_pair_bytes hk1 hk2).optional input pos _
      hd (bytes_head_ne_quote hvs hseg hnq _)
    have hbytes : seg.flatMap Piece.bytes ≠ [] := by
      obtain ⟨x, r', h, -⟩ := bytes_head_ne_quote hvs hseg hnq []
      rw [List.append_nil] at h
      rw [h]
      exact List.cons_ne_nil _ _
    have hmany' : Reads (many multiLineChunk true) (seg.flatMap Piece.bytes)
        (fun r => r.head? = some 34) vs :=
      reads_many hmany fun _ => hmany.ne_nil hbytes
    have hchunks := hmany' input (pos + k) _ (by simpa using drop_add_of_drop hd)
      (hps.head_flatMap Piece.bytes_quote rfl)
    rw [multiLineBody.go, hquotes]
    simp only [List.length_replicate] at hchunks ⊢
    rw [hchunks]
    simp only
    have hd' : input.toList.drop (pos + k + (seg.flatMap Piece.bytes).length) =
        ps.flatMap Piece.bytes ++ 34 :: 34 :: 34 :: rest := by
      have h := drop_add_of_drop (show input.toList.drop pos =
        (List.replicate k 34 ++ seg.flatMap Piece.bytes) ++ _ by simpa using hd)
      simpa [Nat.add_assoc] using h
    rw [ih hvp (by omega) input fuel _ _ rest hd' (by
      simp only [List.length_append, List.length_replicate] at hfuel; omega)]
    simp [hj, String.ofList_append, Piece.char, List.map_replicate, String.append_assoc,
      Nat.add_assoc]

/-- **The body of a multi-line basic string.** The characters of a string, escaped for a
multi-line basic string, read back as themselves before the three closing quotes. -/
theorem reads_multiLineBody (cs : List Char)
    (hlen : (cs.flatMap String.utf8EncodeChar).length ≤ unbounded) :
    Reads multiLineBody (escapeChars true cs 0).toUTF8.toList
      (fun r => ∃ r', r = 34 :: 34 :: 34 :: r' ∧ r'.head? ≠ some 34) (String.ofList cs) := by
  rintro input pos _ hd ⟨r', rfl, hr'⟩
  obtain ⟨seg, body, k, hps, hseg, hbody, hk⟩ :=
    quoteRuns_of_not_three _ (pieces true cs 0) (not_three_quotes_pieces cs 0 (by omega)).2
  have hvalid := valid_of_mem_pieces true cs 0
  rw [hps] at hvalid
  have hcs : cs = (seg ++ body ++ List.replicate k Piece.quote).map Piece.char := by
    rw [← hps, map_char_pieces]
  have hvs : ∀ x ∈ seg, x.Valid := fun x hx => hvalid x (by simp [hx])
  have hvb : ∀ x ∈ body, x.Valid := fun x hx => hvalid x (by simp [hx])
  rw [escapeChars_eq_join, bytes_join, hps] at hd ⊢
  rw [hcs] at hlen ⊢
  simp only [List.map_append, List.flatMap_append, List.length_append] at hlen
  simp only [List.flatMap_append, flatMap_replicate_of_eq Piece.bytes_quote,
    List.append_assoc] at hd ⊢
  -- the stretch before the first raw quote, the loop, and the closing quotes
  obtain ⟨vs, hmany, hj⟩ := readsMany_multiLineChunk hvs hseg (by omega)
  have hmany' : Reads (many multiLineChunk false) (seg.flatMap Piece.bytes)
      (fun r => r.head? = some 34) vs :=
    reads_many hmany nofun
  have hfirst := hmany' input pos _ hd (hbody.head_flatMap Piece.bytes_quote (by cases k <;> rfl))
  have hd₁ := drop_add_of_drop hd
  rw [replicate_append_closing] at hd₁
  have hloop := go_reads hbody hvb (by omega) input
    (input.size - (pos + (seg.flatMap Piece.bytes).length) + 1) _ (String.join vs) _ hd₁
    (by have := length_le_of_drop hd₁; omega)
  rw [← replicate_append_closing] at hd₁
  have hclose := reads_closingRun quote_bytes quote_pair_bytes closing_bytes hk input _ _
    (drop_add_of_drop hd₁) ⟨r', rfl, hr'⟩
  simp only [multiLineBody, hfirst, hloop, hclose, List.length_append, List.length_replicate]
  refine congrArg Except.ok (Prod.ext ?_ (by simp only; omega))
  obtain rfl | rfl | rfl : k = 0 ∨ k = 1 ∨ k = 2 := by omega
  all_goals simp [hj, String.ofList_append, Piece.char, String.append_assoc]

/-- Without a line feed among the characters, the escaped text of a multi-line basic string
starts with no line end, and neither do the closing quotes. -/
theorem head_escapeChars_ne_newline {cs : List Char} (hnl : '\n' ∉ cs) (r : List UInt8) :
    ∃ x t, (escapeChars true cs 0).toUTF8.toList ++ 34 :: r = x :: t ∧ x ≠ 10 ∧ x ≠ 13 := by
  rw [escapeChars_eq_join, bytes_join]
  cases hps : pieces true cs 0 with
  | nil => exact ⟨34, r, rfl, by decide, by decide⟩
  | cons x ps =>
    obtain ⟨b, t, hb, h10, -, h13⟩ :=
      Piece.bytes_head (valid_of_mem_pieces true cs 0 x (by simp [hps]))
    refine ⟨b, t ++ ps.flatMap Piece.bytes ++ 34 :: r, by simp [hb], fun h => hnl ?_, h13⟩
    have hmem : x.char ∈ cs := by
      rw [← map_char_pieces true cs 0, hps]
      exact List.mem_map_of_mem List.mem_cons_self
    simpa [h10 h, Piece.char] using hmem

/-- **Multi-line basic strings.** After the opening quotes and a line feed, or no line feed when
there is none among them, characters escaped for a multi-line basic string read back as
themselves. -/
theorem reads_multiLineBasicString (cs : List Char)
    (hlen : (cs.flatMap String.utf8EncodeChar).length ≤ unbounded) {lead : List UInt8}
    (hlead : lead = [10] ∨ lead = [] ∧ '\n' ∉ cs) :
    Reads multiLineBasicString
      (34 :: 34 :: 34 :: (lead ++ ((escapeChars true cs 0).toUTF8.toList ++ [34, 34, 34])))
      (fun r => r.head? ≠ some 34) (String.ofList cs) := by
  have hlit : Reads (commit (literal "\"\"\"")) [34, 34, 34] (fun _ => True) () := by
    have h := (reads_literal "\"\"\"").commit
    rwa [closing_bytes] at h
  have hbody : Reads (do let body ← commit multiLineBody; commit (literal "\"\"\""); pure body)
      ((escapeChars true cs 0).toUTF8.toList ++ ([34, 34, 34] ++ []))
      (fun r => r.head? ≠ some 34) (String.ofList cs) :=
    Reads.bind (reads_multiLineBody cs hlen).commit
      (Reads.bind hlit (Reads.pure _) fun _ _ => trivial) fun rest hr => ⟨rest, rfl, hr⟩
  rcases hlead with rfl | ⟨rfl, hnl⟩
  · have h : Reads multiLineBasicString ("\"\"\"".toUTF8.toList ++ ([10] ++
        ((escapeChars true cs 0).toUTF8.toList ++ ([34, 34, 34] ++ []))))
        (fun r => r.head? ≠ some 34) (String.ofList cs) :=
      Reads.context _ (Reads.bind (reads_literal _)
        (Reads.bind reads_newline.optional hbody fun _ _ => trivial) fun _ _ => trivial)
    rw [closing_bytes] at h
    simpa using h
  · -- with no line feed to skip, the first byte of the body is no line end
    have h : Reads multiLineBasicString ("\"\"\"".toUTF8.toList ++ ([] ++
        ((escapeChars true cs 0).toUTF8.toList ++ ([34, 34, 34] ++ []))))
        (fun r => r.head? ≠ some 34) (String.ofList cs) :=
      Reads.context _ (Reads.bind (reads_literal _)
        (Reads.bind refuses_newline.optional hbody fun rest _ => by
          simpa using head_escapeChars_ne_newline hnl (34 :: 34 :: rest)) fun _ _ => trivial)
    rw [closing_bytes] at h
    simpa using h

/-! ## Literal strings -/

theorem reads_literalChunk_byte {x : UInt8} (hx : isLiteralByte x = true) :
    Reads literalChunk [x] (fun _ => True) () :=
  Reads.orElse_left (Reads.skip (reads_byteIf hx)) _

theorem reads_literalChunk_newline : Reads literalChunk [10] (fun _ => True) () :=
  Reads.orElse_right (Refuses.bind (refuses_byteIf isLiteralByte) _) reads_newline
    fun _ _ c hc => by
      simp only [List.cons_append, List.head?_cons, Option.mem_def, Option.some.injEq] at hc
      subst hc
      decide

/-- An apostrophe ends a stretch of a multi-line literal string. -/
theorem refuses_literalChunk : Refuses literalChunk fun u => u.head? = some 39 := by
  refine Refuses.orElse (Refuses.bind ((refuses_byteIf isLiteralByte).mono fun u hu c hc => ?_) _)
    (refuses_newline.mono fun u hu => ?_)
  · rw [hu, Option.mem_def, Option.some.injEq] at hc
    subst hc
    decide
  · cases u with
    | nil => simp at hu
    | cons x r =>
      simp only [List.head?_cons, Option.some.injEq] at hu
      exact ⟨x, r, rfl, by simp [hu], by simp [hu]⟩

/-- Bytes of a multi-line literal string other than apostrophes are read one chunk each, up to
an apostrophe. -/
theorem readsMany_literalChunk : ∀ bs : List UInt8, (∀ x ∈ bs, isLiteralByte x = true ∨ x = 10) →
    ReadsMany literalChunk (fun r => r.head? = some 39) bs (List.replicate bs.length ()) := by
  refine readsMany_of_bytes (fun x hx => ?_) refuses_literalChunk
  rcases hx with hx | rfl
  · exact reads_literalChunk_byte hx
  · exact reads_literalChunk_newline

/-- The bytes of characters with no apostrophe or control character are bytes of a literal
string or line feeds. -/
theorem literalChunk_bytes {cs : List Char} (hcs : ∀ c ∈ cs, isControl c = false ∧ c ≠ '\'') :
    ∀ x ∈ cs.flatMap String.utf8EncodeChar, isLiteralByte x = true ∨ x = 10 := by
  intro x hx
  obtain ⟨c, hc, hx⟩ := List.mem_flatMap.1 hx
  rcases literal_bytes (hcs c hc).1 (hcs c hc).2 hx with h | ⟨h, -⟩
  · exact .inl h
  · exact .inr h

/-- **Literal strings.** Characters with no apostrophe, line feed or control character read back
as themselves between apostrophes. -/
theorem reads_literalString {cs : List Char}
    (hcs : ∀ c ∈ cs, isControl c = false ∧ c ≠ '\'' ∧ c ≠ '\n')
    (hlen : (cs.flatMap String.utf8EncodeChar).length ≤ unbounded) :
    Reads literalString (39 :: (cs.flatMap String.utf8EncodeChar ++ [39])) (fun _ => True)
      (String.ofList cs) := by
  have hbytes : ∀ x ∈ cs.flatMap String.utf8EncodeChar, isLiteralByte x = true := by
    intro x hx
    obtain ⟨c, hc, hx⟩ := List.mem_flatMap.1 hx
    obtain ⟨hctl, hq, hnl⟩ := hcs c hc
    rcases literal_bytes hctl hq hx with h | ⟨-, h⟩
    · exact h
    · exact absurd h hnl
  have h : Reads literalString ([ascii '\''] ++ (cs.flatMap String.utf8EncodeChar ++
      ([ascii '\''] ++ []))) (fun _ => True) (text (cs.flatMap String.utf8EncodeChar)) :=
    Reads.context _ (Reads.bind (reads_byte _)
      (Reads.bind (reads_takeWhile hbytes (Nat.zero_le _) hlen).commit
        (Reads.bind (reads_byte _).commit (Reads.pure _) fun _ _ => trivial)
        fun _ _ => .inr fun c hc => by
          simp only [List.append_nil, List.cons_append, List.nil_append, List.head?_cons,
            Option.mem_def, Option.some.injEq] at hc
          subst hc
          decide)
      fun _ _ => trivial)
  rw [text_flatMap] at h
  simpa [ascii_apostrophe] using h

/-! ## Multi-line literal strings -/

theorem utf8EncodeChar_apostrophe : String.utf8EncodeChar '\'' = [39] := by decide

theorem isControl_cr : isControl '\r' = true := by decide

/-- A run of apostrophes inside a multi-line literal body, and the chunks after it, are read by
the repetition of the body. -/
theorem readsMany_literalRuns {body : List Char} (hb : QuoteRuns '\'' body)
    (hctl : ∀ c ∈ body, isControl c = false) :
    ∃ us, ReadsMany (do let _ ← quotes '\'' (do let _ ← byteIf (· ≠ ascii '\''))
                        let _ ← many literalChunk true)
      (fun r => ∃ r', r = 39 :: 39 :: 39 :: r') (body.flatMap String.utf8EncodeChar) us := by
  induction hb with
  | nil =>
    exact ⟨[], ReadsMany.nil (Refuses.bind
      (refuses_quoteRun ascii_apostrophe apostrophe_bytes apostrophe_pair_bytes) _)⟩
  | @cons k seg ps hk1 hk2 hseg hnq hps ih =>
    obtain ⟨us, hus⟩ := ih fun c hc => hctl c (by simp [hc])
    have hsegc : ∀ c ∈ seg, isControl c = false ∧ c ≠ '\'' :=
      fun c hc => ⟨hctl c (by simp [hc]), hnq c hc⟩
    have hmany := readsMany_literalChunk _ (literalChunk_bytes hsegc)
    -- the chunks after the run, up to the next apostrophe
    have hchunks : Reads (many literalChunk true) (seg.flatMap String.utf8EncodeChar)
        (fun r => r.head? = some 39) _ :=
      reads_many hmany fun _ => hmany.ne_nil (length_flatMap_pos hseg)
    have hrun : Reads (do let _ ← quotes '\'' (do let _ ← byteIf (· ≠ ascii '\''))
                          let _ ← many literalChunk true)
        (List.replicate k 39 ++ (seg.flatMap String.utf8EncodeChar ++ []))
        (fun r => ∃ r', r = ps.flatMap String.utf8EncodeChar ++ r' ∧
          ∃ r'', r' = 39 :: 39 :: 39 :: r'') () := by
      refine Reads.bind (reads_quoteRun ascii_apostrophe apostrophe_bytes apostrophe_pair_bytes
        hk1 hk2) (Reads.bind hchunks (Reads.pure ()) ?_) ?_
      · rintro rest ⟨r', rfl, r'', rfl⟩
        exact hps.head_flatMap utf8EncodeChar_apostrophe rfl
      · intro rest _
        -- the stretch after the run starts with a character that is no apostrophe
        obtain ⟨c, x, t, hc, hx, hxc⟩ := flatMap_utf8EncodeChar_head hseg rest
        refine ⟨x, t, by rwa [List.append_nil], fun h => hnq c (List.mem_of_head? hc) ?_⟩
        exact char_eq_iff_toNat.2 (hxc 39 (by omega) (by rw [h]; rfl))
    refine ⟨() :: us, ?_⟩
    have h := ReadsMany.cons (by simp; omega) hrun hus
    simpa [List.flatMap_append, flatMap_replicate_of_eq utf8EncodeChar_apostrophe] using h

/-- **The body of a multi-line literal string.** Characters with no control character and no
three apostrophes in a row are read up to the three closing apostrophes. -/
theorem reads_literalBody {cs : List Char} (hctl : ∀ c ∈ cs, isControl c = false)
    (h3 : ¬['\'', '\'', '\''] <:+: cs) :
    Reads (do
        let _ ← many literalChunk false
        let _ ← many (do let _ ← quotes '\'' (do let _ ← byteIf (· ≠ ascii '\''))
                         let _ ← many literalChunk true) false
        let _ ← optional (quotes '\'' (literal "'''")))
      (cs.flatMap String.utf8EncodeChar)
      (fun r => ∃ r', r = 39 :: 39 :: 39 :: r' ∧ r'.head? ≠ some 39) () := by
  obtain ⟨seg, body, k, rfl, hseg, hbody, hk⟩ := quoteRuns_of_not_three '\'' cs h3
  obtain ⟨us, hus⟩ := readsMany_literalRuns hbody fun c hc => hctl c (by simp [hc])
  have hfirst : Reads (many literalChunk false) (seg.flatMap String.utf8EncodeChar)
      (fun r => r.head? = some 39) _ :=
    reads_many (readsMany_literalChunk _ (literalChunk_bytes fun c hc =>
      ⟨hctl c (by simp [hc]), hseg c hc⟩)) nofun
  have hruns : Reads (many (do let _ ← quotes '\'' (do let _ ← byteIf (· ≠ ascii '\''))
                               let _ ← many literalChunk true) false)
      (body.flatMap String.utf8EncodeChar) (fun r => ∃ r', r = 39 :: 39 :: 39 :: r') us :=
    reads_many hus nofun
  have hclose := reads_closingRun apostrophe_bytes apostrophe_pair_bytes literal_closing_bytes hk
  have hbytes : (seg ++ body ++ List.replicate k '\'').flatMap String.utf8EncodeChar =
      seg.flatMap String.utf8EncodeChar ++
        (body.flatMap String.utf8EncodeChar ++ (List.replicate k 39 ++ [])) := by
    simp [List.flatMap_append, flatMap_replicate_of_eq utf8EncodeChar_apostrophe]
  rw [hbytes]
  refine Reads.bind hfirst (Reads.bind hruns (Reads.bind hclose (Reads.pure ())
      fun _ h => h) ?_) ?_
  · rintro rest ⟨r', rfl, -⟩
    exact ⟨List.replicate k 39 ++ r', by rw [List.append_nil, replicate_append_closing]⟩
  · rintro rest ⟨r', rfl, -⟩
    have hr : (List.replicate k 39 ++ 39 :: 39 :: 39 :: r' : List UInt8).head? = some 39 := by
      cases k <;> rfl
    simpa using hbody.head_flatMap utf8EncodeChar_apostrophe hr

/-- **Multi-line literal strings.** After the opening apostrophes and a line feed, or no line
feed when there is none among them, characters with no control character and no three
apostrophes in a row read back as themselves. -/
theorem reads_multiLineLiteralString {cs : List Char} (hctl : ∀ c ∈ cs, isControl c = false)
    (h3 : ¬['\'', '\'', '\''] <:+: cs) {lead : List UInt8}
    (hlead : lead = [10] ∨ lead = [] ∧ '\n' ∉ cs) :
    Reads multiLineLiteralString
      (39 :: 39 :: 39 :: (lead ++ (cs.flatMap String.utf8EncodeChar ++ [39, 39, 39])))
      (fun r => r.head? ≠ some 39) (String.ofList cs) := by
  have hlit : Reads (commit (literal "'''")) [39, 39, 39] (fun _ => True) () := by
    have h := (reads_literal "'''").commit
    rwa [literal_closing_bytes] at h
  -- the text read is the characters, whose line ends are line feeds already
  have hcr : '\r' ∉ cs := fun h => by simpa [isControl_cr] using hctl '\r' h
  have hvalue : unixLines (text (cs.flatMap String.utf8EncodeChar)) = String.ofList cs := by
    rw [text_flatMap, unixLines, String.toList_ofList, unixLineChars_of_not_mem cs hcr]
  have hbody : Reads (do
        let body ← commit (recognize do
          let _ ← many literalChunk false
          let _ ← many (do let _ ← quotes '\'' (do let _ ← byteIf (· ≠ ascii '\''))
                           let _ ← many literalChunk true) false
          let _ ← optional (quotes '\'' (literal "'''")))
        commit (literal "'''")
        pure (unixLines (text body)))
      (cs.flatMap String.utf8EncodeChar ++ ([39, 39, 39] ++ []))
      (fun r => r.head? ≠ some 39) (String.ofList cs) := by
    rw [← hvalue]
    exact Reads.bind (reads_literalBody hctl h3).recognize.commit
      (Reads.bind hlit (Reads.pure _) fun _ _ => trivial) fun rest hr => ⟨rest, rfl, hr⟩
  rcases hlead with rfl | ⟨rfl, hnl⟩
  · have h : Reads multiLineLiteralString ("'''".toUTF8.toList ++ ([10] ++
        (cs.flatMap String.utf8EncodeChar ++ ([39, 39, 39] ++ []))))
        (fun r => r.head? ≠ some 39) (String.ofList cs) :=
      Reads.context _ (Reads.bind (reads_literal _)
        (Reads.bind reads_newline.optional hbody fun _ _ => trivial) fun _ _ => trivial)
    rw [literal_closing_bytes] at h
    simpa using h
  · -- with no line feed to skip, the first byte of the body is no line end
    have hstart : ∀ rest : List UInt8, ∃ x r, cs.flatMap String.utf8EncodeChar ++
        ([39, 39, 39] ++ [] ++ rest) = x :: r ∧ x ≠ 10 ∧ x ≠ 13 := by
      intro rest
      by_cases hcs : cs = []
      · subst hcs
        exact ⟨39, _, rfl, by decide, by decide⟩
      obtain ⟨c, x, t, hc, hx, hxc⟩ := flatMap_utf8EncodeChar_head hcs ([39, 39, 39] ++ [] ++ rest)
      have hmem := List.mem_of_head? hc
      refine ⟨x, t, hx, fun h => hnl ?_, fun h => hcr ?_⟩
      · have hc10 : c = '\n' := char_eq_iff_toNat.2 (hxc 10 (by omega) (by rw [h]; rfl))
        rwa [hc10] at hmem
      · have hc13 : c = '\r' := char_eq_iff_toNat.2 (hxc 13 (by omega) (by rw [h]; rfl))
        rwa [hc13] at hmem
    have h : Reads multiLineLiteralString ("'''".toUTF8.toList ++ ([] ++
        (cs.flatMap String.utf8EncodeChar ++ ([39, 39, 39] ++ []))))
        (fun r => r.head? ≠ some 39) (String.ofList cs) :=
      Reads.context _ (Reads.bind (reads_literal _)
        (Reads.bind refuses_newline.optional hbody fun rest _ => by
          simpa using hstart rest) fun _ _ => trivial)
    rw [literal_closing_bytes] at h
    simpa using h

/-! ## The four forms -/

theorem refuses_multiLineBasicString :
    Refuses multiLineBasicString fun u => ¬[34, 34, 34] <+: u := by
  have h : Refuses multiLineBasicString fun u => ¬"\"\"\"".toUTF8.toList <+: u :=
    Refuses.context _ (Refuses.bind (refuses_literal _) _)
  rwa [closing_bytes] at h

theorem refuses_basicString : Refuses basicString fun u => u.head? ≠ some 34 :=
  Refuses.bind (refuses_byte _) _

theorem refuses_multiLineLiteralString :
    Refuses multiLineLiteralString fun u => ¬[39, 39, 39] <+: u := by
  have h : Refuses multiLineLiteralString fun u => ¬"'''".toUTF8.toList <+: u :=
    Refuses.context _ (Refuses.bind (refuses_literal _) _)
  rwa [literal_closing_bytes] at h

/-- Three delimiters do not start a text that opens with one and goes on with a byte that is
none, before a line end. -/
theorem not_three_prefix {b : UInt8} {bs r : List UInt8} (hb : ∀ x t, bs = x :: t → x ≠ b)
    (hr : r.head? = some 10) (hb10 : b ≠ 10) : ¬[b, b, b] <+: b :: (bs ++ b :: r) := by
  rintro ⟨t, ht⟩
  cases bs with
  | nil =>
    cases r with
    | nil => simp at hr
    | cons y r =>
      simp only [List.head?_cons, Option.some.injEq] at hr
      subst hr
      simp at ht
      exact hb10 ht.1
  | cons x bs =>
    simp only [List.cons_append, List.cons.injEq] at ht
    exact hb x bs rfl ht.2.1.symm

/-- The escaped text of a basic string on one line starts with no double quote. -/
theorem escapeChars_false_head (cs : List Char) :
    ∀ x t, (escapeChars false cs 0).toUTF8.toList = x :: t → x ≠ 34 := by
  rw [escapeChars_eq_join, bytes_join]
  intro x t h hx
  cases hps : pieces false cs 0 with
  | nil => simp [hps] at h
  | cons y ps =>
    obtain ⟨b, t', hb, -, h34, -⟩ := Piece.bytes_head (valid_of_mem_pieces false cs 0 y (by simp [hps]))
    rw [hps, List.flatMap_cons, hb] at h
    obtain ⟨rfl, -⟩ := List.cons.inj h
    exact (mem_pieces_false cs 0 y (by simp [hps])).2 (h34 hx)

theorem string_eq : string = orElse multiLineBasicString
    (orElse basicString (orElse multiLineLiteralString literalString)) := rfl

/-- The line feed after the opening delimiter of a multi-line string, there when the string has
one. -/
theorem lead_cases (cs : List Char) :
    (if cs.contains '\n' = true then "\n" else "").toUTF8.toList = [10] ∨
      (if cs.contains '\n' = true then "\n" else "").toUTF8.toList = [] ∧ '\n' ∉ cs := by
  by_cases h : cs.contains '\n' = true
  · left
    rw [if_pos h, Text.Utf8.toList_toUTF8]
    decide
  · right
    rw [if_neg h, Text.Utf8.toList_toUTF8]
    exact ⟨rfl, by simpa using h⟩

/-- The bytes of characters with no apostrophe start with no apostrophe. -/
theorem flatMap_head_ne_apostrophe {cs : List Char} (hcs : ∀ c ∈ cs, c ≠ '\'') :
    ∀ x t, cs.flatMap String.utf8EncodeChar = x :: t → x ≠ 39 := by
  intro x t h hx
  have hne : cs ≠ [] := by
    rintro rfl
    simp at h
  obtain ⟨c, y, t', hc, hy, hyc⟩ := flatMap_utf8EncodeChar_head hne []
  rw [List.append_nil, h] at hy
  obtain ⟨rfl, -⟩ := List.cons.inj hy
  exact hcs c (List.mem_of_head? hc) (char_eq_iff_toNat.2 (hyc 39 (by omega) (by rw [hx]; rfl)))

/-- **Every string reads back.** The text `stringText` writes for a string, before a line end,
is read by the string parser as that string. -/
theorem string_reads_stringText (s : String) (hs : s.utf8ByteSize ≤ unbounded) :
    Reads string (stringText s).toUTF8.toList (fun r => r.head? = some 10) s := by
  have hlen : (s.toList.flatMap String.utf8EncodeChar).length ≤ unbounded := by
    rwa [← Text.Utf8.toList_toUTF8, ByteArray.length_toList, String.toUTF8_eq_toByteArray,
      String.size_toByteArray]
  have hbytes : ∀ t : String, t.toUTF8.toList = t.toList.flatMap String.utf8EncodeChar :=
    Text.Utf8.toList_toUTF8
  rw [string_eq]
  dsimp only [stringText]
  cases hf : StringForm.of s.toList with
  | basic =>
    have h := reads_basicString s.toList hlen
    rw [String.ofList_toList] at h
    simp only [StringForm.delimiter, StringForm.multiLine, Bool.false_and, Bool.false_eq_true,
      if_false]
    have hb : ("\"" ++ "" ++ escapeChars false s.toList 0 ++ "\"").toUTF8.toList =
        34 :: ((escapeChars false s.toList 0).toUTF8.toList ++ [34]) := by
      simp only [hbytes, String.toList_append, List.flatMap_append]
      rfl
    rw [hb]
    refine Reads.orElse_right refuses_multiLineBasicString
      (Reads.orElse_left (h.mono fun _ _ => trivial) _) fun rest hr => ?_
    simpa using not_three_prefix (escapeChars_false_head s.toList) hr (by decide)
  | literal =>
    have hcs := StringForm.of_eq_literal hf
    have h := reads_literalString hcs hlen
    rw [String.ofList_toList] at h
    simp only [StringForm.delimiter, StringForm.multiLine, Bool.false_and, Bool.false_eq_true,
      if_false]
    have hb : ("'" ++ "" ++ s ++ "'").toUTF8.toList =
        39 :: (s.toList.flatMap String.utf8EncodeChar ++ [39]) := by
      simp only [hbytes, String.toList_append, List.flatMap_append]
      rfl
    rw [hb]
    refine Reads.orElse_right refuses_multiLineBasicString
      (Reads.orElse_right refuses_basicString
        (Reads.orElse_right refuses_multiLineLiteralString (h.mono fun _ _ => trivial)
          fun rest hr => ?_) fun rest _ => by simp) fun rest _ => by simp [List.cons_prefix_cons]
    simpa using not_three_prefix (flatMap_head_ne_apostrophe fun c hc => (hcs c hc).2.1) hr
      (by decide)
  | multiLineBasic =>
    have h := reads_multiLineBasicString s.toList hlen (lead_cases s.toList)
    rw [String.ofList_toList] at h
    simp only [StringForm.delimiter, StringForm.multiLine, Bool.true_and]
    have hb : ("\"\"\"" ++ (if s.toList.contains '\n' = true then "\n" else "") ++
        escapeChars true s.toList 0 ++ "\"\"\"").toUTF8.toList =
        34 :: 34 :: 34 :: ((if s.toList.contains '\n' = true then "\n" else "").toUTF8.toList ++
          ((escapeChars true s.toList 0).toUTF8.toList ++ [34, 34, 34])) := by
      simp only [hbytes, String.toList_append, List.flatMap_append, List.append_assoc]
      rfl
    rw [hb]
    exact Reads.orElse_left (h.mono fun r hr => by simp [hr]) _
  | multiLineLiteral =>
    obtain ⟨hctl, h3⟩ := StringForm.of_eq_multiLineLiteral hf
    have h := reads_multiLineLiteralString hctl h3 (lead_cases s.toList)
    rw [String.ofList_toList] at h
    simp only [StringForm.delimiter, StringForm.multiLine, Bool.true_and]
    have hb : ("'''" ++ (if s.toList.contains '\n' = true then "\n" else "") ++ s ++
        "'''").toUTF8.toList =
        39 :: 39 :: 39 :: ((if s.toList.contains '\n' = true then "\n" else "").toUTF8.toList ++
          (s.toList.flatMap String.utf8EncodeChar ++ [39, 39, 39])) := by
      simp only [hbytes, String.toList_append, List.flatMap_append, List.append_assoc]
      rfl
    rw [hb]
    exact Reads.orElse_right refuses_multiLineBasicString
      (Reads.orElse_right refuses_basicString (Reads.orElse_left (h.mono fun r hr => by simp [hr]) _)
        fun rest _ => by simp) fun rest _ => by simp [List.cons_prefix_cons]

end Grammar

end WorkLedger.Toml
