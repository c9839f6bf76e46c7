import WorkLedger.Proofs.TomlRead
import WorkLedger.Toml.Writer

/-!
# Basic TOML strings read back

A basic string is written character by character (`escapeChars`), each character as a piece
(`Toml.Piece`): itself, an escape, or, in a multi-line string, a line feed or a double quote
left as they are (`Toml.escapeChars_eq_join`). The reader takes a run of characters that stand
for themselves at once and each escape on its own, so the pieces are read as runs and escapes
(`Grammar.readsMany_chunks`), and a basic string on one line reads back as its characters
(`Grammar.reads_basicString`). In a multi-line string no three raw double quotes stand in a row
(`Toml.not_three_quotes_pieces`), and one or two quotes are read as a run when the parser after
them accepts what follows (`Grammar.reads_quotes_one`, `Grammar.reads_quotes_two`).
-/

namespace WorkLedger.Toml

/-! ## Pieces of a basic string -/

/-- Whether a character other than the double quote is written with a backslash in a basic
string on one line. -/
def escapedInBasic (c : Char) : Bool := c = '\\' || c.toNat ≤ 0x1F || c.toNat = 0x7F

/-- One character of a basic string as written. -/
inductive Piece where
  /-- A character that stands for itself. -/
  | plain (c : Char)
  /-- A character written with a backslash. -/
  | escape (c : Char)
  /-- A line feed left as it is, in a multi-line string. -/
  | newline
  /-- A double quote left as it is, in a multi-line string. -/
  | quote
  deriving DecidableEq

namespace Piece

/-- The character a piece stands for. -/
def char : Piece → Char
  | .plain c | .escape c => c
  | .newline => '\n'
  | .quote => '"'

/-- The text of a piece. -/
def text : Piece → String
  | .plain c => c.toString
  | .escape c => if c = '"' then "\\\"" else escapeBasic false c
  | .newline => "\n"
  | .quote => "\""

/-- The bytes of a piece. -/
def bytes (x : Piece) : List UInt8 := x.text.toUTF8.toList

/-- The piece of a character other than the double quote. -/
def of (multiLine : Bool) (c : Char) : Piece :=
  if multiLine && c = '\n' then .newline
  else if escapedInBasic c then .escape c else .plain c

/-- What the writer makes of a character: a plain character that needs no escape, and an escape
of one that does. -/
def Valid : Piece → Prop
  | .plain c => c ≠ '"' ∧ escapedInBasic c = false
  | .escape c => c = '"' ∨ escapedInBasic c = true
  | .newline | .quote => True

/-- Whether a piece is a raw double quote. -/
def isQuote (x : Piece) : Bool := x == .quote

@[simp] theorem char_of (m : Bool) (c : Char) : (of m c).char = c := by
  unfold of
  split
  · rename_i h
    simp only [Bool.and_eq_true, decide_eq_true_eq] at h
    rw [h.2]
    rfl
  · split <;> rfl

theorem valid_of (m : Bool) {c : Char} (hc : c ≠ '"') : (of m c).Valid := by
  unfold of
  by_cases hn : (m && c = '\n') = true
  · rw [if_pos hn]
    trivial
  · rw [if_neg hn]
    by_cases he : escapedInBasic c = true
    · rw [if_pos he]
      exact .inr he
    · rw [if_neg he]
      exact ⟨hc, by simpa using he⟩

theorem of_ne_quote (m : Bool) (c : Char) : of m c ≠ .quote := by
  unfold of
  split
  · nofun
  · split <;> nofun

/-- A character other than the double quote is written as the text of its piece. -/
theorem escapeBasic_eq_text (m : Bool) {c : Char} (hc : c ≠ '"') :
    escapeBasic m c = (of m c).text := by
  have hn : '\n'.toNat = 10 := rfl
  by_cases hnl : c = '\n'
  · subst hnl
    cases m <;> rfl
  have hof : of m c = if escapedInBasic c then .escape c else .plain c := by
    simp [of, hnl]
  rw [hof]
  split
  · simp only [text, hc, if_false]
    unfold escapeBasic
    simp [hnl]
  · rename_i hesc
    simp only [escapedInBasic, Bool.or_eq_true, decide_eq_true_eq, not_or] at hesc
    obtain ⟨⟨hbs, hlow⟩, hdel⟩ := hesc
    have hne : ∀ x : Char, x.toNat ≤ 0x1F → c ≠ x := fun x hx h => by subst h; omega
    simp [escapeBasic, text, hne '\x08' (by decide), hne '\t' (by decide), hne '\n' (by decide),
      hne '\x0c' (by decide), hne '\r' (by decide), hbs, hlow, hdel]

end Piece

/-- The pieces of the characters of a basic string, after `run` double quotes in a row: a double
quote is an escape when it would make the run longer than the form allows. -/
def pieces (multiLine : Bool) : List Char → Nat → List Piece
  | [], _ => []
  | c :: rest, run =>
    if c = '"' then
      if (if multiLine then 2 else 0) < run + 1 then .escape '"' :: pieces multiLine rest 0
      else .quote :: pieces multiLine rest (run + 1)
    else Piece.of multiLine c :: pieces multiLine rest 0

@[simp] theorem pieces_nil (m : Bool) (run : Nat) : pieces m [] run = [] := rfl

theorem pieces_quote (m : Bool) (rest : List Char) (run : Nat) :
    pieces m ('"' :: rest) run =
      if (if m then 2 else 0) < run + 1 then .escape '"' :: pieces m rest 0
      else .quote :: pieces m rest (run + 1) := by
  rw [pieces, if_pos rfl]

/-- A double quote is an escape or a raw quote, whatever the run. -/
theorem pieces_quote_cases (m : Bool) (rest : List Char) (run : Nat) :
    pieces m ('"' :: rest) run = .escape '"' :: pieces m rest 0 ∨
      pieces m ('"' :: rest) run = .quote :: pieces m rest (run + 1) := by
  rw [pieces_quote]
  by_cases hlt : (if m then 2 else 0) < run + 1
  · exact .inl (if_pos hlt)
  · exact .inr (if_neg hlt)

theorem pieces_of_ne {c : Char} (hc : c ≠ '"') (m : Bool) (rest : List Char) (run : Nat) :
    pieces m (c :: rest) run = Piece.of m c :: pieces m rest 0 := by
  rw [pieces, if_neg hc]

/-- **Escaping by pieces.** The characters of a basic string are written as the texts of their
pieces, one after the other. -/
theorem escapeChars_eq_join (m : Bool) (cs : List Char) (run : Nat) :
    escapeChars m cs run = String.join ((pieces m cs run).map Piece.text) := by
  induction cs generalizing run with
  | nil => rfl
  | cons c rest ih =>
    by_cases hq : c = '"'
    · subst hq
      rw [escapeChars, if_pos rfl, pieces_quote]
      by_cases hlt : (if m then 2 else 0) < run + 1
      · rw [if_pos hlt, if_pos hlt]
        simp [ih, Piece.text]
      · rw [if_neg hlt, if_neg hlt]
        simp [ih, Piece.text]
    · rw [escapeChars, if_neg hq, pieces_of_ne hq]
      simp [ih, Piece.escapeBasic_eq_text m hq]

/-- The pieces stand for the characters they were made of. -/
@[simp] theorem map_char_pieces (m : Bool) (cs : List Char) (run : Nat) :
    (pieces m cs run).map Piece.char = cs := by
  induction cs generalizing run with
  | nil => rfl
  | cons c rest ih =>
    by_cases hq : c = '"'
    · subst hq
      rcases pieces_quote_cases m rest run with h | h <;> simp [h, ih, Piece.char]
    · simp [pieces_of_ne hq, ih]

theorem valid_of_mem_pieces (m : Bool) (cs : List Char) (run : Nat) :
    ∀ x ∈ pieces m cs run, x.Valid := by
  induction cs generalizing run with
  | nil => simp
  | cons c rest ih =>
    by_cases hq : c = '"'
    · subst hq
      rcases pieces_quote_cases m rest run with h | h <;>
        simp only [h, List.mem_cons, forall_eq_or_imp]
      · exact ⟨.inl rfl, ih 0⟩
      · exact ⟨trivial, ih _⟩
    · rw [pieces_of_ne hq]
      simp only [List.mem_cons, forall_eq_or_imp]
      exact ⟨Piece.valid_of m hq, ih 0⟩

/-- On one line every piece is a plain character or an escape. -/
theorem mem_pieces_false (cs : List Char) (run : Nat) :
    ∀ x ∈ pieces false cs run, x ≠ .newline ∧ x ≠ .quote := by
  induction cs generalizing run with
  | nil => simp
  | cons c rest ih =>
    by_cases hq : c = '"'
    · subst hq
      rw [pieces_quote, if_pos (by simp)]
      simp only [List.mem_cons, forall_eq_or_imp]
      exact ⟨⟨nofun, nofun⟩, ih 0⟩
    · rw [pieces_of_ne hq]
      simp only [List.mem_cons, forall_eq_or_imp]
      refine ⟨⟨?_, Piece.of_ne_quote false c⟩, ih 0⟩
      unfold Piece.of
      simp only [Bool.false_and, Bool.false_eq_true, if_false]
      split <;> nofun

/-- In a multi-line string no three raw double quotes stand in a row: the third is escaped.
After `run` raw quotes, the pieces start with at most `2 - run` more. -/
theorem not_three_quotes_pieces (cs : List Char) :
    ∀ run, run ≤ 2 → run + ((pieces true cs run).takeWhile Piece.isQuote).length ≤ 2 ∧
      ¬[Piece.quote, .quote, .quote] <:+: pieces true cs run := by
  induction cs with
  | nil =>
    intro run hrun
    simp [pieces]
    omega
  | cons c rest ih =>
    intro run hrun
    -- a piece that is no raw quote starts no run of them
    have other : ∀ x P, x ≠ Piece.quote → ¬[Piece.quote, .quote, .quote] <:+: P →
        run + ((x :: P).takeWhile Piece.isQuote).length ≤ 2 ∧
          ¬[Piece.quote, .quote, .quote] <:+: x :: P := by
      intro x P hx hP
      have hq : x.isQuote = false := by simpa [Piece.isQuote] using hx
      refine ⟨by simp [hq]; omega, fun h => ?_⟩
      rcases List.infix_cons_iff.1 h with hp | hi
      · exact hx (List.cons_prefix_cons.1 hp).1.symm
      · exact hP hi
    by_cases hq : c = '"'
    · subst hq
      rw [pieces_quote]
      by_cases hlt : 2 < run + 1
      · rw [if_pos (by simpa using hlt)]
        exact other _ _ nofun (ih 0 (by omega)).2
      · rw [if_neg (by simpa using hlt)]
        obtain ⟨hlead, h3⟩ := ih (run + 1) (by omega)
        refine ⟨by simp [Piece.isQuote]; omega, fun h => ?_⟩
        rcases List.infix_cons_iff.1 h with hp | hi
        · -- two more raw quotes would follow, more than the run allows
          obtain ⟨t, ht⟩ := (List.cons_prefix_cons.1 hp).2
          rw [← ht] at hlead
          simp [Piece.isQuote] at hlead
          omega
        · exact h3 hi
    · rw [pieces_of_ne hq]
      exact other _ _ (Piece.of_ne_quote true c) (ih 0 (by omega)).2

/-! ## Bytes of characters -/

/-- A byte of a character's UTF-8 bytes is the character itself when that is ASCII, and from
`0x80` up otherwise. -/
theorem mem_utf8EncodeChar {c : Char} {b : UInt8} (hb : b ∈ String.utf8EncodeChar c) :
    (c.toNat < 128 ∧ b.toNat = c.toNat) ∨ 128 ≤ b.toNat := by
  have hc : c.val.toNat = c.toNat := rfl
  have high : ∀ n, 128 ≤ n → n < 256 → 128 ≤ (UInt8.ofNat n).toNat := fun n h1 h2 => by
    rw [Text.Utf8.toNat_ofNat_of_lt h2]
    exact h1
  unfold String.utf8EncodeChar at hb
  simp only [hc] at hb
  split at hb
  · rw [List.mem_singleton] at hb
    subst hb
    exact .inl ⟨by omega, Text.Utf8.toNat_ofNat_of_lt (by omega)⟩
  · right
    split at hb
    · simp only [List.mem_cons, List.not_mem_nil, or_false] at hb
      rcases hb with rfl | rfl <;> exact high _ (by omega) (by omega)
    · split at hb
      · simp only [List.mem_cons, List.not_mem_nil, or_false] at hb
        rcases hb with rfl | rfl | rfl <;> exact high _ (by omega) (by omega)
      · simp only [List.mem_cons, List.not_mem_nil, or_false] at hb
        rcases hb with rfl | rfl | rfl | rfl <;> exact high _ (by omega) (by omega)

namespace Grammar

open WorkLedger.Toml.Parser

theorem isBasicByte_iff (b : UInt8) :
    isBasicByte b = true ↔ b.toNat = 9 ∨ (32 ≤ b.toNat ∧ b.toNat ≠ 34 ∧ b.toNat ≠ 92 ∧ b.toNat ≠ 127) := by
  have := b.toNat_lt
  simp only [isBasicByte, isBlank, isNonAscii, Bool.or_eq_true, Bool.and_eq_true, decide_eq_true_eq,
    ← UInt8.toNat_inj, UInt8.le_iff_toNat_le, UInt8.reduceToNat]
  omega

theorem isLiteralByte_iff (b : UInt8) :
    isLiteralByte b = true ↔ b.toNat = 9 ∨ (32 ≤ b.toNat ∧ b.toNat ≠ 39 ∧ b.toNat ≠ 127) := by
  have := b.toNat_lt
  simp only [isLiteralByte, isNonAscii, Bool.or_eq_true, Bool.and_eq_true, decide_eq_true_eq,
    ← UInt8.toNat_inj, UInt8.le_iff_toNat_le, UInt8.reduceToNat]
  omega

/-- A digit below sixteen as `hex4` writes it: one byte, a hexadecimal digit of that value. -/
theorem hexDigit_table : ∀ d < 16, (String.utf8EncodeChar d.digitChar.toUpper).length = 1 ∧
    ∀ b ∈ String.utf8EncodeChar d.digitChar.toUpper, isHexDigit b = true ∧
      (if isDigit b then b.toNat - 48 else if b ≤ ascii 'F' then b.toNat - 55 else b.toNat - 87) = d := by
  decide +kernel

theorem hex4_chars {n : Nat} (hn : n < 256) :
    (hex4 n).toList = ['0', '0', (n / 16).digitChar.toUpper, (n % 16).digitChar.toUpper] := by
  by_cases hlt : n < 16
  · rw [hex4, String.toList_ofList, Nat.toDigits_of_lt_base hlt, Nat.div_eq_of_lt hlt,
      Nat.mod_eq_of_lt hlt]
    rfl
  · rw [hex4, String.toList_ofList, Nat.toDigits_of_base_le (by decide) (by omega),
      Nat.toDigits_of_lt_base (by omega)]
    rfl

theorem reads_escapeSequence_letter {e : UInt8} {c : Char}
    (h : (e, c) ∈ [(98, '\x08'), (102, '\x0c'), (110, '\n'), (114, '\r'), (116, '\t'), (92, '\\'),
      (34, '"')]) :
    Reads escapeSequence [e] (fun _ => True) c := by
  intro input pos rest hd _
  rw [escapeSequence, bind_apply, reads_anyByte e input pos rest hd trivial]
  simp only [List.mem_cons, Prod.mk.injEq, List.not_mem_nil, or_false] at h
  rcases h with ⟨rfl, rfl⟩ | ⟨rfl, rfl⟩ | ⟨rfl, rfl⟩ | ⟨rfl, rfl⟩ | ⟨rfl, rfl⟩ | ⟨rfl, rfl⟩ |
    ⟨rfl, rfl⟩ <;> rfl

/-- Four hexadecimal digits read back as the code they write, when that is a character below
the surrogates. -/
theorem reads_hexEscape {hs : List UInt8} {n : Nat} (hlen : hs.length = 4)
    (hhex : ∀ b ∈ hs, isHexDigit b = true)
    (hval : hs.foldl (fun acc b => acc * 16 + (if isDigit b then b.toNat - 48
      else if b ≤ ascii 'F' then b.toNat - 55 else b.toNat - 87)) 0 = n) (hn : n < 0xD800) :
    Reads (hexEscape 4) hs (fun _ => True) (Char.ofNat n) := by
  refine Reads.tryMap (Reads.verify ((reads_takeWhile hhex (Nat.zero_le _) hlen.le).mono
    fun _ _ => .inl hlen) (by simp [hlen])) ?_
  simp only [hval]
  simp [hn]

/-- A backslash and the bytes after it read back as the character they stand for. -/
theorem reads_escaped {tail : List UInt8} {c : Char}
    (h : Reads escapeSequence tail (fun _ => True) c) :
    Reads escaped ([92] ++ tail) (fun _ => True) c.toString :=
  Reads.bind (reads_byte 92) (Reads.map Char.toString h) fun _ _ => trivial

theorem reads_escapeSequence_unicode {hs : List UInt8} {n : Nat} (hlen : hs.length = 4)
    (hhex : ∀ b ∈ hs, isHexDigit b = true)
    (hval : hs.foldl (fun acc b => acc * 16 + (if isDigit b then b.toNat - 48
      else if b ≤ ascii 'F' then b.toNat - 55 else b.toNat - 87)) 0 = n) (hn : n < 0xD800) :
    Reads escapeSequence (117 :: hs) (fun _ => True) (Char.ofNat n) := by
  have h : Reads (context (.label "unicode 4-digit hex code") (commit (hexEscape 4))) hs
      (fun _ => True) (Char.ofNat n) :=
    Reads.context _ (Reads.commit (reads_hexEscape hlen hhex hval hn))
  exact Reads.bind (reads_anyByte 117) h fun _ _ => trivial

/-- **Escapes.** An escape piece is a backslash and bytes that read back as its character: its
letter, or `u` and the four hexadecimal digits of its code. -/
theorem escape_bytes {c : Char} (hc : (Piece.escape c).Valid) :
    ∃ e tail, (Piece.escape c).bytes = 92 :: e :: tail ∧ 34 ≤ e.toNat ∧
      Reads escapeSequence (e :: tail) (fun _ => True) c := by
  have letter : ∀ e, (e, c) ∈ [(98, '\x08'), (102, '\x0c'), (110, '\n'), (114, '\r'), (116, '\t'),
      (92, '\\'), (34, '"')] → (Piece.escape c).bytes = [92, e] →
      ∃ e tail, (Piece.escape c).bytes = 92 :: e :: tail ∧ 34 ≤ e.toNat ∧
        Reads escapeSequence (e :: tail) (fun _ => True) c := by
    intro e he hb
    refine ⟨e, [], hb, ?_, reads_escapeSequence_letter he⟩
    simp only [List.mem_cons, Prod.mk.injEq, List.not_mem_nil, or_false] at he
    rcases he with ⟨rfl, -⟩ | ⟨rfl, -⟩ | ⟨rfl, -⟩ | ⟨rfl, -⟩ | ⟨rfl, -⟩ | ⟨rfl, -⟩ | ⟨rfl, -⟩ <;>
      decide
  have bytes_eq : ∀ t : String, (Piece.escape c).text = t →
      (Piece.escape c).bytes = t.toList.flatMap String.utf8EncodeChar := fun t ht => by
    rw [Piece.bytes, ht, Text.Utf8.toList_toUTF8]
  by_cases h1 : c = '"'
  · subst h1
    exact letter 34 (by simp) (bytes_eq _ rfl)
  have htext : (Piece.escape c).text = escapeBasic false c := by simp [Piece.text, h1]
  by_cases h2 : c = '\\'
  · subst h2
    exact letter 92 (by simp) (bytes_eq _ htext)
  by_cases h3 : c = '\x08'
  · subst h3
    exact letter 98 (by simp) (bytes_eq _ htext)
  by_cases h4 : c = '\t'
  · subst h4
    exact letter 116 (by simp) (bytes_eq _ htext)
  by_cases h5 : c = '\n'
  · subst h5
    exact letter 110 (by simp) (bytes_eq _ htext)
  by_cases h6 : c = '\x0c'
  · subst h6
    exact letter 102 (by simp) (bytes_eq _ htext)
  by_cases h7 : c = '\r'
  · subst h7
    exact letter 114 (by simp) (bytes_eq _ htext)
  -- any other control character, or DEL, is written `\u` and four hexadecimal digits
  have hctl : (c.toNat ≤ 0x1F || c.toNat = 0x7F) = true := by
    rcases hc with hc | hc
    · exact absurd hc h1
    · simpa [escapedInBasic, h2] using hc
  have hsmall : c.toNat < 128 := by simp at hctl; omega
  have hu : escapeBasic false c = "\\u" ++ hex4 c.toNat := by
    rw [escapeBasic, if_neg h3, if_neg h4, if_neg h5, if_neg h6, if_neg h7, if_neg h2, if_pos hctl]
  obtain ⟨hl₁, hd₁⟩ := hexDigit_table (c.toNat / 16) (by omega)
  obtain ⟨hl₀, hd₀⟩ := hexDigit_table (c.toNat % 16) (by omega)
  obtain ⟨b₁, hb₁⟩ := List.length_eq_one_iff.1 hl₁
  obtain ⟨b₀, hb₀⟩ := List.length_eq_one_iff.1 hl₀
  rw [hb₁] at hd₁
  rw [hb₀] at hd₀
  obtain ⟨hx₁, hv₁⟩ := hd₁ b₁ List.mem_cons_self
  obtain ⟨hx₀, hv₀⟩ := hd₀ b₀ List.mem_cons_self
  refine ⟨117, [48, 48, b₁, b₀], ?_, by decide, ?_⟩
  · rw [bytes_eq _ (htext.trans hu), String.toList_append, List.flatMap_append,
      hex4_chars (by omega)]
    simp only [List.flatMap_cons, List.flatMap_nil, hb₁, hb₀]
    rfl
  · have hcode : Reads escapeSequence [117, 48, 48, b₁, b₀] (fun _ => True) (Char.ofNat c.toNat) :=
      reads_escapeSequence_unicode rfl (by simp [hx₁, hx₀]; decide) (by simp [hv₁, hv₀]; omega)
        (by omega)
    rwa [Char.ofNat_toNat] at hcode

theorem reads_escape_piece {c : Char} (hc : (Piece.escape c).Valid) :
    Reads escaped (Piece.escape c).bytes (fun _ => True) c.toString := by
  obtain ⟨e, tail, hb, -, h⟩ := escape_bytes hc
  rw [hb]
  exact reads_escaped h

/-! ## Basic strings -/

/-- Every byte of a character that stands for itself in a basic string stands for itself. -/
theorem isBasicByte_of_plain {c : Char} (hc : (Piece.plain c).Valid) {b : UInt8}
    (hb : b ∈ String.utf8EncodeChar c) : isBasicByte b = true := by
  obtain ⟨hq, he⟩ := hc
  simp only [escapedInBasic, Bool.or_eq_false_iff, decide_eq_false_iff_not] at he
  obtain ⟨⟨hbs, hlow⟩, hdel⟩ := he
  have hq' : c.toNat ≠ 34 := fun h => hq (Char.toNat_inj.1 (show c.toNat = '"'.toNat from h))
  have hbs' : c.toNat ≠ 92 := fun h => hbs (Char.toNat_inj.1 (show c.toNat = '\\'.toNat from h))
  rw [isBasicByte_iff]
  rcases mem_utf8EncodeChar hb with ⟨hlt, heq⟩ | hhigh <;> omega

theorem length_flatMap_pos {cs : List Char} (hne : cs ≠ []) :
    cs.flatMap String.utf8EncodeChar ≠ [] := by
  obtain ⟨c, cs, rfl⟩ := List.exists_cons_of_ne_nil hne
  simp [String.utf8EncodeChar_ne_nil]

/-- A run of characters that stand for themselves is read at once, up to a byte that does not
stand for itself. -/
theorem reads_basicRun {pre : List Char} (hpre : ∀ c ∈ pre, (Piece.plain c).Valid)
    (hne : pre ≠ []) (hlen : (pre.flatMap String.utf8EncodeChar).length ≤ unbounded) :
    Reads (do let bs ← takeWhile 1 unbounded isBasicByte; pure (text bs))
      (pre.flatMap String.utf8EncodeChar) (fun r => ∀ b ∈ r.head?, isBasicByte b = false)
      (String.ofList pre) := by
  have hbytes : ∀ b ∈ pre.flatMap String.utf8EncodeChar, isBasicByte b = true := by
    intro b hb
    obtain ⟨c, hc, hb⟩ := List.mem_flatMap.1 hb
    exact isBasicByte_of_plain (hpre c hc) hb
  have hrun := Reads.map text ((reads_takeWhile hbytes
    (List.length_pos_iff.2 (length_flatMap_pos hne)) hlen).mono fun _ h => .inr h)
  rwa [text_flatMap] at hrun

theorem refuses_basicRun :
    Refuses (do let bs ← takeWhile 1 unbounded isBasicByte; pure (text bs))
      fun u => ∀ b ∈ u.head?, isBasicByte b = false :=
  Refuses.bind refuses_takeWhile _

theorem refuses_escaped : Refuses escaped fun u => u.head? ≠ some 92 :=
  Refuses.bind (refuses_byte 92) _

/-- A chunk of a basic string refuses the closing double quote. -/
theorem refuses_basicChunk : Refuses basicChunk fun u => u.head? = some 34 :=
  Refuses.orElse (refuses_basicRun.mono fun u hu => by simp [hu]; decide)
    (refuses_escaped.mono fun u hu => by simp [hu])

/-- The bytes of a piece other than a plain character start with a byte that ends a run. -/
theorem bytes_of_not_plain {x : Piece} (hx : x.Valid) (hnp : ∀ c, x ≠ .plain c) :
    ∃ b t, x.bytes = b :: t ∧ isBasicByte b = false := by
  cases x with
  | plain c => exact absurd rfl (hnp c)
  | escape c =>
    obtain ⟨e, tail, hb, -⟩ := escape_bytes hx
    exact ⟨92, e :: tail, hb, by decide⟩
  | newline => exact ⟨10, [], by rw [Piece.bytes, Text.Utf8.toList_toUTF8]; decide, by decide⟩
  | quote => exact ⟨34, [], by rw [Piece.bytes, Text.Utf8.toList_toUTF8]; decide, by decide⟩

/-- **The chunks of a basic string.** Pieces without raw quotes, after a run `pre` of plain
characters, are read by a chunk parser as chunks whose texts join to their characters: a run of
plain characters at once, any other piece on its own, up to the next double quote. -/
theorem readsMany_chunks {chunk : Parser String}
    (hrun : ∀ pre : List Char, (∀ c ∈ pre, (Piece.plain c).Valid) → pre ≠ [] →
      (pre.flatMap String.utf8EncodeChar).length ≤ unbounded →
      Reads chunk (pre.flatMap String.utf8EncodeChar)
        (fun r => ∀ b ∈ r.head?, isBasicByte b = false) (String.ofList pre))
    (hend : Refuses chunk fun r => r.head? = some 34) :
    ∀ ps : List Piece, (∀ x ∈ ps, x.Valid) →
      (∀ x ∈ ps, (∀ c, x ≠ .plain c) → Reads chunk x.bytes (fun _ => True) x.char.toString) →
      ∀ pre : List Char, (∀ c ∈ pre, (Piece.plain c).Valid) →
      ((pre ++ ps.map Piece.char).flatMap String.utf8EncodeChar).length ≤ unbounded →
      ∃ vs, ReadsMany chunk (fun r => r.head? = some 34)
          (pre.flatMap String.utf8EncodeChar ++ ps.flatMap Piece.bytes) vs ∧
        String.join vs = String.ofList (pre ++ ps.map Piece.char) := by
  -- a run ends where another piece starts or at the double quote after the pieces
  have run : ∀ pre : List Char, (∀ c ∈ pre, (Piece.plain c).Valid) → pre ≠ [] →
      (pre.flatMap String.utf8EncodeChar).length ≤ unbounded → ∀ l' : List UInt8,
      (∀ b ∈ l'.head?, isBasicByte b = false) →
      Reads chunk (pre.flatMap String.utf8EncodeChar)
        (fun r => ∃ r', r = l' ++ r' ∧ r'.head? = some 34) (String.ofList pre) := by
    intro pre hpre hne hlen l' hl'
    refine (hrun pre hpre hne hlen).mono ?_
    rintro r ⟨r', rfl, hr'⟩
    cases l' with
    | nil =>
      simp [hr']
      decide
    | cons x t => simpa using hl'
  intro ps
  induction ps with
  | nil =>
    intro _ _ pre hpre hlen
    by_cases hpre0 : pre = []
    · subst hpre0
      exact ⟨[], by simpa using ReadsMany.nil hend, rfl⟩
    · refine ⟨[String.ofList pre], ?_, by simp⟩
      have h := ReadsMany.cons (length_flatMap_pos hpre0)
        (run pre hpre hpre0 (by simpa using hlen) [] nofun) (ReadsMany.nil hend)
      simpa using h
  | cons x ps ih =>
    intro hvalid hsingle pre hpre hlen
    have hvalid' := fun y hy => hvalid y (List.mem_cons_of_mem x hy)
    have hsingle' := fun y hy => hsingle y (List.mem_cons_of_mem x hy)
    by_cases hp : ∃ c, x = .plain c
    · -- a plain character joins the run
      obtain ⟨c, rfl⟩ := hp
      obtain ⟨vs, hvs, hj⟩ := ih hvalid' hsingle' (pre ++ [c])
        (fun d hd => by
          rcases List.mem_append.1 hd with hd | hd
          · exact hpre d hd
          · rw [List.mem_singleton.1 hd]
            exact hvalid _ List.mem_cons_self)
        (by simpa [Piece.char] using hlen)
      refine ⟨vs, ?_, by simpa [Piece.char] using hj⟩
      have hb : (Piece.plain c).bytes = String.utf8EncodeChar c := by
        rw [Piece.bytes, Piece.text, Text.Utf8.toList_toUTF8]
        simp
      simpa [hb] using hvs
    · -- any other piece ends the run so far and is a chunk of its own
      have hnp : ∀ c, x ≠ .plain c := fun c h => hp ⟨c, h⟩
      obtain ⟨vs, hvs, hj⟩ := ih hvalid' hsingle' [] (by simp)
        (by simp only [List.flatMap_append, List.length_append, List.map_cons,
              List.flatMap_cons] at hlen ⊢; simp at hlen ⊢; omega)
      obtain ⟨b, t, hb, hbasic⟩ := bytes_of_not_plain (hvalid x List.mem_cons_self) hnp
      have hone : ReadsMany chunk (fun r => r.head? = some 34) (x.bytes ++ ps.flatMap Piece.bytes)
          (x.char.toString :: vs) :=
        ReadsMany.cons (by simp [hb]) ((hsingle x List.mem_cons_self hnp).mono fun _ _ => trivial)
          (by simpa using hvs)
      simp only [List.nil_append] at hj
      by_cases hpre0 : pre = []
      · subst hpre0
        refine ⟨x.char.toString :: vs, by simpa using hone, ?_⟩
        simp [hj, String.ofList_cons]
      · refine ⟨String.ofList pre :: x.char.toString :: vs, ?_, ?_⟩
        · have h := ReadsMany.cons (length_flatMap_pos hpre0)
            (run pre hpre hpre0 (by simp at hlen ⊢; omega) _ (by simp [hb, hbasic])) hone
          simpa using h
        · simp [hj, String.ofList_append, String.ofList_cons]

theorem bytes_join (ps : List Piece) :
    (String.join (ps.map Piece.text)).toUTF8.toList = ps.flatMap Piece.bytes := by
  induction ps with
  | nil =>
    rw [Text.Utf8.toList_toUTF8]
    rfl
  | cons x ps ih =>
    rw [List.map_cons, String.join_cons, List.flatMap_cons, ← ih, Piece.bytes,
      Text.Utf8.toList_toUTF8, Text.Utf8.toList_toUTF8, Text.Utf8.toList_toUTF8,
      String.toList_append, List.flatMap_append]

/-- **Basic strings.** A basic string on one line, its characters escaped as needed, reads back
as those characters. -/
theorem reads_basicString (cs : List Char)
    (hlen : (cs.flatMap String.utf8EncodeChar).length ≤ unbounded) :
    Reads basicString (34 :: ((escapeChars false cs 0).toUTF8.toList ++ [34])) (fun _ => True)
      (String.ofList cs) := by
  have hrun : ∀ pre : List Char, (∀ c ∈ pre, (Piece.plain c).Valid) → pre ≠ [] →
      (pre.flatMap String.utf8EncodeChar).length ≤ unbounded →
      Reads basicChunk (pre.flatMap String.utf8EncodeChar)
        (fun r => ∀ b ∈ r.head?, isBasicByte b = false) (String.ofList pre) :=
    fun pre hpre hne hlen => Reads.orElse_left (reads_basicRun hpre hne hlen) _
  -- on one line a piece that is no plain character is an escape
  have hsingle : ∀ x ∈ pieces false cs 0, (∀ c, x ≠ .plain c) →
      Reads basicChunk x.bytes (fun _ => True) x.char.toString := by
    intro x hx hnp
    obtain ⟨hnl, hq⟩ := mem_pieces_false cs 0 x hx
    have hv := valid_of_mem_pieces false cs 0 x hx
    cases x with
    | plain c => exact absurd rfl (hnp c)
    | escape c =>
      obtain ⟨e, tail, hb, -⟩ := escape_bytes hv
      refine Reads.orElse_right refuses_basicRun (reads_escape_piece hv) fun rest _ => ?_
      simp [hb]
      decide
    | newline => exact absurd rfl hnl
    | quote => exact absurd rfl hq
  obtain ⟨vs, hvs, hj⟩ := readsMany_chunks hrun refuses_basicChunk (pieces false cs 0)
    (valid_of_mem_pieces false cs 0) hsingle [] (by simp) (by simpa using hlen)
  simp only [List.flatMap_nil, List.nil_append, map_char_pieces] at hvs hj
  have h : Reads basicString ([ascii '"'] ++ ((pieces false cs 0).flatMap Piece.bytes ++
      ([ascii '"'] ++ []))) (fun _ => True) (String.join vs) :=
    Reads.bind (reads_byte _) (Reads.bind (reads_many hvs nofun)
      (Reads.bind (Reads.context _ (Reads.commit (reads_byte _))) (Reads.pure _)
        fun _ _ => trivial) fun _ _ => rfl) fun _ _ => trivial
  have hq : ascii '"' = 34 := rfl
  rw [escapeChars_eq_join, bytes_join, ← hj]
  simpa [hq] using h

/-! ## Multi-line basic strings -/

theorem multiLineChunk_eq : multiLineChunk =
    orElse (do let bs ← takeWhile 1 unbounded isBasicByte; pure (text bs))
      (orElse (do escapedLineBreak; pure "") (orElse escaped (do newline; pure "\n"))) := rfl

/-- A line break escaped by a backslash is refused unless the backslash is followed by blanks
and a line end. -/
theorem refuses_escapedLineBreak :
    Refuses (do escapedLineBreak; pure "") fun u =>
      u.head? ≠ some 92 ∨ ∃ x r, u = 92 :: x :: r ∧ 34 ≤ x.toNat := by
  have hafter : Refuses (do byte 92; blanks; newlines) fun u => ∃ rest, u = [92] ++ rest ∧ True ∧
      ∃ rest', rest = [] ++ rest' ∧ (∀ b ∈ rest'.head?, isBlank b = false) ∧
        ∃ x r, rest' = x :: r ∧ x ≠ 10 ∧ x ≠ 13 :=
    Refuses.bind_of_reads (reads_byte 92)
      (Refuses.bind_of_reads reads_no_blanks (Refuses.bind refuses_newline _))
  have hiter : Refuses (do byte 92; blanks; newlines) fun u =>
      u.head? ≠ some 92 ∨ ∃ x r, u = 92 :: x :: r ∧ 34 ≤ x.toNat := by
    refine Refuses.or (Refuses.bind (refuses_byte 92) _) (hafter.mono ?_)
    rintro u ⟨x, r, rfl, hx⟩
    have hblank : isBlank x = false := by
      simp only [isBlank, Bool.or_eq_false_iff, decide_eq_false_iff_not, ← UInt8.toNat_inj,
        UInt8.reduceToNat]
      omega
    have h10 : x ≠ 10 := fun h => by subst h; simp at hx
    have h13 : x ≠ 13 := fun h => by subst h; simp at hx
    exact ⟨x :: r, rfl, trivial, x :: r, rfl, by simp [hblank], x, r, rfl, h10, h13⟩
  exact Refuses.bind (Refuses.bind (refuses_many hiter) _) _

theorem refuses_multiLineChunk : Refuses multiLineChunk fun u => u.head? = some 34 := by
  rw [multiLineChunk_eq]
  refine Refuses.orElse (refuses_basicRun.mono fun u hu => by simp [hu]; decide)
    (Refuses.orElse (refuses_escapedLineBreak.mono fun u hu => .inl (by simp [hu]))
      (Refuses.orElse (refuses_escaped.mono fun u hu => by simp [hu])
        (Refuses.bind (refuses_newline.mono fun u hu => ?_) _)))
  cases u with
  | nil => simp at hu
  | cons x r =>
    simp only [List.head?_cons, Option.some.injEq] at hu
    exact ⟨x, r, rfl, by simp [hu], by simp [hu]⟩

/-- In a multi-line string a piece other than a plain character and a raw quote, an escape or a
raw line feed, is a chunk of its own. -/
theorem reads_multiLineChunk_single {x : Piece} (hx : x.Valid) (hnp : ∀ c, x ≠ .plain c)
    (hq : x ≠ .quote) : Reads multiLineChunk x.bytes (fun _ => True) x.char.toString := by
  rw [multiLineChunk_eq]
  cases x with
  | plain c => exact absurd rfl (hnp c)
  | escape c =>
    obtain ⟨e, tail, hb, he, -⟩ := escape_bytes hx
    refine Reads.orElse_right refuses_basicRun
      (Reads.orElse_right refuses_escapedLineBreak
        (Reads.orElse_left (reads_escape_piece hx) _) fun rest _ => .inr ⟨e, tail ++ rest, ?_, he⟩)
      fun rest _ => ?_
    · rw [hb]
      rfl
    · simp [hb]
      decide
  | newline =>
    have hb : Piece.newline.bytes = [10] := by
      rw [Piece.bytes, Text.Utf8.toList_toUTF8]
      decide
    rw [hb]
    refine Reads.orElse_right refuses_basicRun
      (Reads.orElse_right refuses_escapedLineBreak
        (Reads.orElse_right refuses_escaped
          (Reads.bind reads_newline (Reads.pure _) fun _ _ => trivial) ?_) ?_) ?_
    · intro rest _
      simp
    · intro rest _
      simp
    · intro rest _
      simp
      decide
  | quote => exact absurd rfl hq

/-- A run of plain characters is one chunk of a multi-line string too. -/
theorem reads_multiLineChunk_run {pre : List Char} (hpre : ∀ c ∈ pre, (Piece.plain c).Valid)
    (hne : pre ≠ []) (hlen : (pre.flatMap String.utf8EncodeChar).length ≤ unbounded) :
    Reads multiLineChunk (pre.flatMap String.utf8EncodeChar)
      (fun r => ∀ b ∈ r.head?, isBasicByte b = false) (String.ofList pre) := by
  rw [multiLineChunk_eq]
  exact Reads.orElse_left (reads_basicRun hpre hne hlen) _

/-! ## Runs of quotes -/

section Quotes

variable {q : Char} {b : UInt8} {F : Parser Unit} {l : List UInt8} {P Q : List UInt8 → Prop}

/-- Two quotes, followed by what `F` reads. -/
theorem reads_quotes_two (h₂ : (String.ofList [q, q]).toUTF8.toList = [b, b])
    (hF : Reads F l P ()) :
    Reads (quotes q F) [b, b] (fun r => ∃ r', r = l ++ r' ∧ P r') (String.ofList [q, q]) := by
  have h : Reads (do literal (String.ofList [q, q]); lookahead F; pure (String.ofList [q, q]))
      ((String.ofList [q, q]).toUTF8.toList ++ ([] ++ [])) (fun r => ∃ r', r = l ++ r' ∧ P r')
      (String.ofList [q, q]) :=
    Reads.bind (reads_literal _) (Reads.bind (Reads.lookahead hF) (Reads.pure _) fun _ h => h)
      fun _ _ => trivial
  rw [h₂] at h
  exact Reads.orElse_left h _

/-- Two quotes are refused when the second byte is no quote, or when `F` refuses after them. -/
theorem refuses_quotes_pair (h₂ : (String.ofList [q, q]).toUTF8.toList = [b, b])
    (hR : Refuses F Q) :
    Refuses (do literal (String.ofList [q, q]); lookahead F; pure (String.ofList [q, q]))
      fun u => ∀ r, u = [b, b] ++ r → Q r := by
  intro input pos hu
  by_cases hpre : [b, b] <+: input.toList.drop pos
  · obtain ⟨r, hr⟩ := hpre
    have h : Refuses (do literal (String.ofList [q, q]); lookahead F; pure (String.ofList [q, q]))
        fun u => ∃ rest, u = (String.ofList [q, q]).toUTF8.toList ++ rest ∧ True ∧ Q rest :=
      Refuses.bind_of_reads (reads_literal _) (Refuses.bind (Refuses.lookahead hR) _)
    exact h input pos ⟨r, by rw [h₂, hr], trivial, hu r hr.symm⟩
  · exact Refuses.bind (refuses_literal _) _ input pos (by rwa [h₂])

/-- One quote, followed by what `F` reads, where two quotes are refused. -/
theorem reads_quotes_one (h₁ : q.toString.toUTF8.toList = [b])
    (h₂ : (String.ofList [q, q]).toUTF8.toList = [b, b]) (hF : Reads F l P ()) (hR : Refuses F Q) :
    Reads (quotes q F) [b] (fun r => (∃ r', r = l ++ r' ∧ P r') ∧ ∀ r', r = b :: r' → Q r')
      q.toString := by
  have hl : Reads (lookahead F) [] (fun r => (∃ r', r = l ++ r' ∧ P r') ∧
      ∀ r', r = b :: r' → Q r') () :=
    (Reads.lookahead hF).mono fun _ h => h.1
  have h : Reads (do literal q.toString; lookahead F; pure q.toString)
      (q.toString.toUTF8.toList ++ ([] ++ [])) (fun r => (∃ r', r = l ++ r' ∧ P r') ∧
        ∀ r', r = b :: r' → Q r') q.toString :=
    Reads.bind (reads_literal _) (Reads.bind hl (Reads.pure _) fun _ h => h) fun _ _ => trivial
  rw [h₁] at h
  exact Reads.orElse_right (refuses_quotes_pair h₂ hR) h fun rest hr r heq =>
    hr.2 r (by simpa using heq)

/-- Quotes are refused where `F` refuses after one quote and after two. -/
theorem refuses_quotes (h₁ : q.toString.toUTF8.toList = [b])
    (h₂ : (String.ofList [q, q]).toUTF8.toList = [b, b]) (hR : Refuses F Q) :
    Refuses (quotes q F) fun u => ∃ r, u = b :: r ∧ Q r ∧ ∀ r', r = b :: r' → Q r' := by
  refine Refuses.orElse ((refuses_quotes_pair h₂ hR).mono ?_) ?_
  · rintro u ⟨r, rfl, -, h⟩ r' heq
    exact h r' (by simpa using heq)
  · rintro input pos ⟨r, hd, hr, -⟩
    have h : Refuses (do literal q.toString; lookahead F; pure q.toString)
        fun u => ∃ rest, u = q.toString.toUTF8.toList ++ rest ∧ True ∧ Q rest :=
      Refuses.bind_of_reads (reads_literal _) (Refuses.bind (Refuses.lookahead hR) _)
    exact h input pos ⟨r, by rw [h₁, hd]; rfl, trivial, hr⟩

end Quotes

end Grammar

end WorkLedger.Toml
