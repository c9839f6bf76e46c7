import WorkLedger.Json.Schema
import WorkLedger.Proofs.Utf8
import WorkLedger.Proofs.DecimalText

/-!
# Reading JSON text: the pieces

What the cursor reads off the front of the bytes it has not read yet (`Cursor.unread`).
`Reads r text follow a` says that `r`, started where `text` and then anything satisfying
`follow` remain, gives `a` and stops right after `text`. Readers in sequence read their texts
one after the other (`Reads.bind`).

* Blanks before a byte are skipped (`skipBlanks_reads`).
* A string literal reads back as the string it quotes, whatever it holds: escapes, control
  characters written as `\u00` escapes, and characters of any UTF-8 length
  (`readString_reads`).
* The digits of an integer read back as it, when what follows cannot continue a number
  (`readNumber_reads`, `readNumber_minus_reads`).
-/

namespace WorkLedger.Json

/-! ## The cursor -/

namespace Cursor

/-- The bytes not read yet. -/
def unread (c : Cursor) : List UInt8 := c.bytes.toList.drop c.index

theorem length_unread (c : Cursor) : c.unread.length = c.bytes.size - c.index := by
  simp [unread]

/-- A byte left unread is the byte at the index. -/
theorem getElem_of_unread {c : Cursor} {b : UInt8} {tl : List UInt8}
    (h : c.unread = b :: tl) : ∃ hi : c.index < c.bytes.size, c.bytes[c.index] = b := by
  have hi : c.index < c.bytes.toList.length := by
    have := congrArg List.length h
    simp only [unread, List.length_drop, List.length_cons] at this
    omega
  rw [ByteArray.length_toList] at hi
  refine ⟨hi, ?_⟩
  have hdrop := List.drop_eq_getElem_cons (by rwa [ByteArray.length_toList])
  rw [← unread, h, List.cons.injEq] at hdrop
  rw [hdrop.1, ByteArray.getElem_eq_getElem_data]
  simp [ByteArray.toList_eq]

theorem unread_succ {c : Cursor} {b : UInt8} {tl : List UInt8} (h : c.unread = b :: tl) :
    List.drop (c.index + 1) c.bytes.toList = tl := by
  rw [← List.tail_drop, ← unread, h, List.tail_cons]

theorem index_ge_of_unread_nil {c : Cursor} (h : c.unread = []) : c.bytes.size ≤ c.index := by
  have := c.length_unread
  rw [h] at this
  simp at this
  omega

end Cursor

/-! ## Single bytes -/

section Bytes

variable {c : Cursor} {b : UInt8} {tl : List UInt8}

theorem peek_cons (h : c.unread = b :: tl) : peek c = .ok (some b, { c with peeked := true }) := by
  obtain ⟨hi, hb⟩ := Cursor.getElem_of_unread h
  simp [peek, get, getThe, MonadStateOf.get, StateT.get, set, StateT.set, hi, hb, bind,
    StateT.bind, pure, StateT.pure, Except.pure, Except.bind]

theorem peek_nil (h : c.unread = []) : peek c = .ok (none, c) := by
  have := Cursor.index_ge_of_unread_nil h
  simp [peek, get, getThe, MonadStateOf.get, StateT.get, Nat.not_lt.2 this, bind, StateT.bind,
    pure, StateT.pure, Except.pure, Except.bind]

theorem eat_eq (c : Cursor) :
    eat c = .ok ((), { c with index := c.index + 1, peeked := false }) := rfl

theorem next_cons (h : c.unread = b :: tl) :
    next c = .ok (some b, { c with index := c.index + 1, peeked := false }) := by
  obtain ⟨hi, hb⟩ := Cursor.getElem_of_unread h
  simp [next, get, getThe, MonadStateOf.get, StateT.get, set, StateT.set, hi, hb, bind,
    StateT.bind, pure, StateT.pure, Except.pure, Except.bind]

@[simp] theorem unread_peeked (c : Cursor) (p : Bool) : { c with peeked := p }.unread = c.unread :=
  rfl

theorem unread_eat (h : c.unread = b :: tl) :
    { c with index := c.index + 1, peeked := false }.unread = tl :=
  Cursor.unread_succ h

end Bytes

/-! ## Reading a text off the front -/

/-- `r`, started where `text` and then any `rest` satisfying `follow` remain unread, gives `a`
and stops where `rest` remains. -/
def Reads {α : Type} (r : ReadM α) (text : List UInt8) (follow : List UInt8 → Prop) (a : α) :
    Prop :=
  ∀ (c : Cursor) (rest : List UInt8), c.unread = text ++ rest → follow rest →
    ∃ c', r c = .ok (a, c') ∧ c'.bytes = c.bytes ∧ c'.unread = rest

namespace Reads

variable {α β : Type} {l l₁ l₂ : List UInt8} {P P₁ P₂ : List UInt8 → Prop}

theorem pure (a : α) : Reads (pure a) [] P a :=
  fun c _ hc _ => ⟨c, rfl, rfl, hc⟩

/-- Two readers in sequence read their texts one after the other, as long as what the first
may be followed by includes the second's text and whatever may follow that. -/
theorem bind {r : ReadM α} {f : α → ReadM β} {a : α} {b : β} (h₁ : Reads r l₁ P₁ a)
    (h₂ : Reads (f a) l₂ P₂ b) (hP : ∀ rest, P₂ rest → P₁ (l₂ ++ rest)) :
    Reads (r >>= f) (l₁ ++ l₂) P₂ b := by
  intro c rest hc hr
  obtain ⟨c₁, e₁, hb₁, hu₁⟩ := h₁ c (l₂ ++ rest) (by rw [hc, List.append_assoc]) (hP rest hr)
  obtain ⟨c₂, e₂, hb₂, hu₂⟩ := h₂ c₁ rest hu₁ hr
  refine ⟨c₂, ?_, hb₂.trans hb₁, hu₂⟩
  show (r c >>= fun p => f p.1 p.2) = _
  rw [e₁]
  exact e₂

theorem map {r : ReadM α} {a : α} (f : α → β) (h : Reads r l P a) : Reads (f <$> r) l P (f a) := by
  intro c rest hc hr
  obtain ⟨c', e, hb, hu⟩ := h c rest hc hr
  refine ⟨c', ?_, hb, hu⟩
  show (r c >>= fun p => Except.ok (f p.1, p.2)) = _
  rw [e]
  rfl

/-- A reader of nothing but its effect, then another. -/
theorem seq {r₁ : ReadM Unit} {r₂ : ReadM β} {b : β} (h₁ : Reads r₁ l₁ P₁ ())
    (h₂ : Reads r₂ l₂ P₂ b) (hP : ∀ rest, P₂ rest → P₁ (l₂ ++ rest)) :
    Reads (r₁ >>= fun _ => r₂) (l₁ ++ l₂) P₂ b :=
  bind h₁ h₂ hP

theorem bind_pure {r : ReadM α} {a : α} (f : α → β) (h : Reads r l P a) :
    Reads (r >>= fun x => Pure.pure (f x)) l P (f a) :=
  map f h

/-- What follows may be required less of. -/
theorem mono {r : ReadM α} {a : α} (h : Reads r l P₁ a) (hP : ∀ rest, P₂ rest → P₁ rest) :
    Reads r l P₂ a :=
  fun c rest hc hr => h c rest hc (hP rest hr)

end Reads

theorem eat_reads (b : UInt8) : Reads eat [b] (fun _ => True) () := by
  intro c rest hc _
  exact ⟨_, eat_eq c, rfl, unread_eat hc⟩

theorem next_reads (b : UInt8) : Reads next [b] (fun _ => True) (some b) := by
  intro c rest hc _
  exact ⟨_, next_cons hc, rfl, unread_eat hc⟩

/-! ## Blanks -/

/-- Bytes that are all blanks. -/
def Blanks (ws : List UInt8) : Prop := ∀ b ∈ ws, isBlank b = true

/-- The byte a reader looks at after blanks: what comes next, which is no blank. -/
def NextIs (x : Option UInt8) (rest : List UInt8) : Prop :=
  rest.head? = x ∧ ∀ b ∈ x, isBlank b = false

theorem skipBlanksFuel_reads {ws : List UInt8} (hws : Blanks ws) (x : Option UInt8) :
    ∀ fuel, ws.length ≤ fuel → Reads (skipBlanksFuel fuel) ws (NextIs x) x := by
  induction ws with
  | nil =>
    intro fuel _ c rest hc ⟨hx, hnb⟩
    rw [List.nil_append] at hc
    cases rest with
    | nil =>
      subst hx
      cases fuel with
      | zero => exact ⟨c, peek_nil hc, rfl, hc⟩
      | succ fuel =>
        refine ⟨c, ?_, rfl, hc⟩
        simp only [skipBlanksFuel, bind, StateT.bind, peek_nil hc, Except.bind]
        rfl
    | cons b tl =>
      simp only [List.head?_cons] at hx
      subst hx
      have hb := hnb b rfl
      cases fuel with
      | zero => exact ⟨_, peek_cons hc, rfl, hc⟩
      | succ fuel =>
        refine ⟨{ c with peeked := true }, ?_, rfl, hc⟩
        simp [skipBlanksFuel, bind, StateT.bind, peek_cons hc, Except.bind, hb, pure,
          StateT.pure, Except.pure]
  | cons w ws ih =>
    intro fuel hlen c rest hc hr
    obtain ⟨fuel, rfl⟩ : ∃ f, fuel = f + 1 := ⟨fuel - 1, by simp at hlen; omega⟩
    have hw : isBlank w = true := hws w List.mem_cons_self
    rw [List.cons_append] at hc
    obtain ⟨c', e, hb, hu⟩ := ih (fun b hb => hws b (List.mem_cons_of_mem _ hb)) fuel
      (by simp at hlen; omega) _ rest (unread_eat hc) hr
    refine ⟨c', ?_, hb, hu⟩
    simp only [skipBlanksFuel, bind, StateT.bind, peek_cons hc, Except.bind, hw, if_true]
    exact e

/-- Blanks are skipped up to the byte after them, which is looked at and left unread. -/
theorem skipBlanks_reads {ws : List UInt8} (hws : Blanks ws) (x : Option UInt8) :
    Reads skipBlanks ws (NextIs x) x := by
  intro c rest hc hr
  have hlen : ws.length ≤ c.bytes.size - c.index := by
    rw [← Cursor.length_unread, hc, List.length_append]
    omega
  exact skipBlanksFuel_reads hws x _ hlen c rest hc hr

theorem blanks_nil : Blanks [] := by
  simp [Blanks]

/-! ## Strings -/

section Strings

variable {c : Cursor} {tl : List UInt8}

theorem readEscape_of_cons {e v : UInt8} (h : c.unread = e :: tl)
    (hv : (e = 34 ∧ v = 34) ∨ (e = 92 ∧ v = 92) ∨ (e = 110 ∧ v = 10) ∨ (e = 114 ∧ v = 13) ∨
      (e = 116 ∧ v = 9) ∨ (e = 98 ∧ v = 8) ∨ (e = 102 ∧ v = 12)) :
    readEscape c = .ok ([v], { c with index := c.index + 1, peeked := false }) := by
  rcases hv with ⟨rfl, rfl⟩ | ⟨rfl, rfl⟩ | ⟨rfl, rfl⟩ | ⟨rfl, rfl⟩ | ⟨rfl, rfl⟩ | ⟨rfl, rfl⟩ |
    ⟨rfl, rfl⟩ <;>
  simp [readEscape, bind, StateT.bind, next_cons h, Except.bind, pure, StateT.pure, Except.pure]

/-- The four bytes after the index, as the `\u` escape reads them. -/
theorem toList_extract_four {hs : List UInt8} (h : c.unread = hs ++ tl) (hlen : hs.length = 4) :
    (c.bytes.extract c.index (c.index + 4)).toList = hs := by
  rw [ByteArray.toList_eq, ByteArray.data_extract, Array.toList_extract, List.extract_eq_take_drop,
    ← ByteArray.toList_eq, ← Cursor.unread, h, Nat.add_sub_cancel_left, List.take_left' hlen]

theorem readHexEscape_of_append {hs : List UInt8} (h : c.unread = hs ++ tl) (hlen : hs.length = 4)
    {n : Nat} (hn : (hs.mapM hexValue?).map (fun ds => ds.foldl (fun acc d => acc * 16 + d) 0) =
      some n) :
    ∃ c', readHexEscape c = .ok (n, c') ∧ c'.bytes = c.bytes ∧ c'.unread = tl := by
  have hsize : c.index + 4 ≤ c.bytes.size := by
    have := c.length_unread
    rw [h, List.length_append, hlen] at this
    omega
  obtain ⟨ds, hds, rfl⟩ := Option.map_eq_some_iff.1 hn
  refine ⟨{ c with index := c.index + 4, peeked := false }, ?_, rfl, ?_⟩
  · simp only [readHexEscape, get, getThe, MonadStateOf.get, StateT.get, bind, StateT.bind,
      Except.bind, pure, Except.pure]
    rw [if_pos hsize, toList_extract_four h hlen, hds]
    rfl
  · show List.drop (c.index + 4) c.bytes.toList = tl
    rw [← List.drop_drop, ← Cursor.unread, h, List.drop_left' hlen]

theorem readEscape_unicode {hs : List UInt8} (h : c.unread = 117 :: (hs ++ tl))
    (hlen : hs.length = 4) {n : Nat}
    (hn : (hs.mapM hexValue?).map (fun ds => ds.foldl (fun acc d => acc * 16 + d) 0) = some n)
    (hlt : n < 0xD800) :
    ∃ c', readEscape c = .ok (utf8Bytes n, c') ∧ c'.bytes = c.bytes ∧ c'.unread = tl := by
  obtain ⟨c', e, hb, hu⟩ := readHexEscape_of_append (unread_eat h) hlen hn
  refine ⟨c', ?_, hb, hu⟩
  simp only [readEscape, bind, StateT.bind, next_cons h, Except.bind]
  simp only [show ((117 : UInt8) == 34) = false from rfl, show ((117 : UInt8) == 92) = false from rfl,
    show ((117 : UInt8) == 47) = false from rfl, show ((117 : UInt8) == 98) = false from rfl,
    show ((117 : UInt8) == 102) = false from rfl, show ((117 : UInt8) == 110) = false from rfl,
    show ((117 : UInt8) == 114) = false from rfl, show ((117 : UInt8) == 116) = false from rfl,
    show ((117 : UInt8) == 117) = true from rfl, Bool.false_eq_true, if_false, if_true]
  simp only [bind, StateT.bind, e, Except.bind]
  rw [if_neg (by omega), if_pos (Or.inl hlt)]
  rfl

/-- A byte that stands for itself inside a string literal: no quote, no backslash and no
control byte. -/
def PlainByte (b : UInt8) : Prop := b ≠ 34 ∧ b ≠ 92 ∧ ¬b < 32

/-- Every byte of a character that is no quote, no backslash and no control character stands
for itself: one ASCII byte from the space up, or bytes from `0x80` up. -/
theorem plainByte_of_mem_utf8EncodeChar {ch : Char} (h32 : 32 ≤ ch.toNat) (hq : ch ≠ '"')
    (hbs : ch ≠ '\\') {b : UInt8} (hb : b ∈ String.utf8EncodeChar ch) : PlainByte b := by
  have hq' : ch.toNat ≠ 34 := fun h => hq (Char.toNat_inj.1 h)
  have hbs' : ch.toNat ≠ 92 := fun h => hbs (Char.toNat_inj.1 h)
  -- a byte from `0x80` up is no quote, backslash or control byte
  have high : ∀ n, 128 ≤ n → n < 256 → PlainByte (UInt8.ofNat n) := by
    intro n h1 h2
    have hn := Text.Utf8.toNat_ofNat_of_lt h2
    refine ⟨?_, ?_, ?_⟩ <;>
      simp only [ne_eq, ← UInt8.toNat_inj, UInt8.lt_iff_toNat_lt, hn, UInt8.reduceToNat] <;>
      omega
  have hc : ch.val.toNat = ch.toNat := rfl
  unfold String.utf8EncodeChar at hb
  simp only [hc] at hb
  split at hb
  · rw [List.mem_singleton] at hb
    subst hb
    have hn := Text.Utf8.toNat_ofNat_of_lt (show ch.toNat < 256 by omega)
    refine ⟨?_, ?_, ?_⟩ <;>
      simp only [ne_eq, ← UInt8.toNat_inj, UInt8.lt_iff_toNat_lt, hn, UInt8.reduceToNat] <;>
      omega
  · split at hb
    · simp only [List.mem_cons, List.not_mem_nil, or_false] at hb
      rcases hb with rfl | rfl <;> exact high _ (by omega) (by omega)
    · split at hb
      · simp only [List.mem_cons, List.not_mem_nil, or_false] at hb
        rcases hb with rfl | rfl | rfl <;> exact high _ (by omega) (by omega)
      · simp only [List.mem_cons, List.not_mem_nil, or_false] at hb
        have := ch.valid
        rcases hb with rfl | rfl | rfl | rfl <;> exact high _ (by omega) (by omega)

theorem readStringBytes_close (h : c.unread = 34 :: tl) (acc : List UInt8) (fuel : Nat) :
    readStringBytes (fuel + 1) acc c = .ok (acc.reverse, { c with peeked := true }) := by
  simp [readStringBytes, bind, StateT.bind, peek_cons h, Except.bind, pure, StateT.pure,
    Except.pure]

theorem readStringBytes_escape (h : c.unread = 92 :: tl) {bytes : List UInt8} {c₂ : Cursor}
    (he : readEscape { c with index := c.index + 1, peeked := false } = .ok (bytes, c₂))
    (acc : List UInt8) (fuel : Nat) :
    readStringBytes (fuel + 1) acc c = readStringBytes fuel (bytes.reverse ++ acc) c₂ := by
  simp [readStringBytes, bind, StateT.bind, peek_cons h, Except.bind, eat_eq, he]

theorem readStringBytes_plain {bs : List UInt8} (hbs : ∀ b ∈ bs, PlainByte b) :
    ∀ (c : Cursor) (acc : List UInt8) (fuel : Nat), c.unread = bs ++ tl → bs.length ≤ fuel →
      ∃ c', c'.bytes = c.bytes ∧ c'.unread = tl ∧
        readStringBytes fuel acc c = readStringBytes (fuel - bs.length) (bs.reverse ++ acc) c' := by
  induction bs with
  | nil => exact fun c acc fuel h _ => ⟨c, rfl, h, by simp⟩
  | cons b bs ih =>
    intro c acc fuel h hlen
    obtain ⟨fuel, rfl⟩ : ∃ f, fuel = f + 1 := ⟨fuel - 1, by simp at hlen; omega⟩
    obtain ⟨hq, hbs', hctl⟩ := hbs b List.mem_cons_self
    rw [List.cons_append] at h
    obtain ⟨c', hb, hu, e⟩ := ih (fun x hx => hbs x (List.mem_cons_of_mem _ hx)) _ (b :: acc) fuel
      (unread_eat h) (by simp at hlen; omega)
    refine ⟨c', hb, hu, ?_⟩
    have hstep : readStringBytes (fuel + 1) acc c =
        readStringBytes fuel (b :: acc) { c with index := c.index + 1, peeked := false } := by
      simp [readStringBytes, bind, StateT.bind, peek_cons h, Except.bind, eat_eq, hq, hbs', hctl]
    rw [hstep, e, List.length_cons, List.reverse_cons, List.append_assoc, List.singleton_append]
    congr 1
    omega

/-- The escapes of one letter: the byte after the backslash and the byte it stands for. -/
def SimpleEscape (e v : UInt8) : Prop :=
  (e = 34 ∧ v = 34) ∨ (e = 92 ∧ v = 92) ∨ (e = 110 ∧ v = 10) ∨ (e = 114 ∧ v = 13) ∨
    (e = 116 ∧ v = 9) ∨ (e = 98 ∧ v = 8) ∨ (e = 102 ∧ v = 12)

theorem readStringBytes_simpleEscape {e v : UInt8} (hv : SimpleEscape e v)
    (h : c.unread = 92 :: e :: tl) (acc : List UInt8) (fuel : Nat) :
    ∃ c', c'.bytes = c.bytes ∧ c'.unread = tl ∧
      readStringBytes (fuel + 1) acc c = readStringBytes fuel (v :: acc) c' := by
  have he := readEscape_of_cons (unread_eat h) hv
  refine ⟨_, ?_, unread_eat (unread_eat h), readStringBytes_escape h he acc fuel⟩
  rfl

/-- The control characters without a letter escape are written `\u00` and two hexadecimal
digits, which read back as the character. -/
theorem unicodeEscape_table : ∀ n < 32, (n = 8 ∨ n = 9 ∨ n = 10 ∨ n = 12 ∨ n = 13) ∨
    ((escapeChar (Char.ofNat n)).toList.flatMap String.utf8EncodeChar).take 2 = [92, 117] ∧
    ((escapeChar (Char.ofNat n)).toList.flatMap String.utf8EncodeChar).length = 6 ∧
    ((((escapeChar (Char.ofNat n)).toList.flatMap String.utf8EncodeChar).drop 2).mapM
      hexValue?).map (fun ds => ds.foldl (fun acc d => acc * 16 + d) 0) = some n := by
  decide

theorem utf8Bytes_toNat (ch : Char) : utf8Bytes ch.toNat = String.utf8EncodeChar ch := by
  rw [utf8Bytes, Char.ofNat_toNat, Text.Utf8.toList_toUTF8]
  simp [Char.toString]

/-- The bytes a character is written as inside a string literal. -/
def escapedBytes (ch : Char) : List UInt8 := (escapeChar ch).toList.flatMap String.utf8EncodeChar

/-- **One character of a string literal.** Reading the bytes a character is written as, letter
escape, `\u` escape or the character's own bytes, adds the character's UTF-8 bytes to what has
been read, using up at most one step per byte. -/
theorem readStringBytes_escapedBytes (ch : Char) {c : Cursor} {rest : List UInt8}
    (hc : c.unread = escapedBytes ch ++ rest) (acc : List UInt8) (fuel : Nat)
    (hfuel : (escapedBytes ch).length ≤ fuel) :
    ∃ c' fuel', fuel - (escapedBytes ch).length ≤ fuel' ∧ c'.bytes = c.bytes ∧ c'.unread = rest ∧
      readStringBytes fuel acc c =
        readStringBytes fuel' ((String.utf8EncodeChar ch).reverse ++ acc) c' := by
  have simple : ∀ e v, SimpleEscape e v → escapedBytes ch = [92, e] →
      String.utf8EncodeChar ch = [v] → ∃ c' fuel', fuel - (escapedBytes ch).length ≤ fuel' ∧
        c'.bytes = c.bytes ∧ c'.unread = rest ∧
        readStringBytes fuel acc c =
          readStringBytes fuel' ((String.utf8EncodeChar ch).reverse ++ acc) c' := by
    intro e v hv hbytes hutf
    rw [hbytes] at hc hfuel ⊢
    obtain ⟨f, rfl⟩ : ∃ f, fuel = f + 1 := ⟨fuel - 1, by simp at hfuel; omega⟩
    obtain ⟨c', hb, hu, e⟩ := readStringBytes_simpleEscape hv hc acc f
    exact ⟨c', f, by simp, hb, hu, by rw [e, hutf]; rfl⟩
  by_cases h1 : ch = '"'
  · subst h1
    exact simple 34 34 (Or.inl ⟨rfl, rfl⟩) (by decide) (by decide)
  by_cases h2 : ch = '\\'
  · subst h2
    exact simple 92 92 (Or.inr (Or.inl ⟨rfl, rfl⟩)) (by decide) (by decide)
  by_cases h3 : ch = '\n'
  · subst h3
    exact simple 110 10 (Or.inr (Or.inr (Or.inl ⟨rfl, rfl⟩))) (by decide) (by decide)
  by_cases h4 : ch = '\r'
  · subst h4
    exact simple 114 13 (Or.inr (Or.inr (Or.inr (Or.inl ⟨rfl, rfl⟩)))) (by decide) (by decide)
  by_cases h5 : ch = '\t'
  · subst h5
    exact simple 116 9 (Or.inr (Or.inr (Or.inr (Or.inr (Or.inl ⟨rfl, rfl⟩))))) (by decide)
      (by decide)
  by_cases h6 : ch = '\x08'
  · subst h6
    exact simple 98 8 (Or.inr (Or.inr (Or.inr (Or.inr (Or.inr (Or.inl ⟨rfl, rfl⟩))))))
      (by decide) (by decide)
  by_cases h7 : ch = '\x0c'
  · subst h7
    exact simple 102 12 (Or.inr (Or.inr (Or.inr (Or.inr (Or.inr (Or.inr ⟨rfl, rfl⟩))))))
      (by decide) (by decide)
  have hne : ∀ x : Char, ch ≠ x → ch.toNat ≠ x.toNat := fun x h e => h (Char.toNat_inj.1 e)
  by_cases h8 : ch.toNat < 32
  · -- a control character: `\u00` and two hexadecimal digits
    rcases unicodeEscape_table ch.toNat h8 with hnamed | ⟨htake, hlen, hval⟩
    · have := hne _ h3
      have := hne _ h4
      have := hne _ h5
      have := hne _ h6
      have := hne _ h7
      simp only [Char.reduceToNat] at *
      omega
    rw [Char.ofNat_toNat] at htake hlen hval
    have hlen6 : (escapedBytes ch).length = 6 := hlen
    have hsplit : escapedBytes ch = 92 :: 117 :: (escapedBytes ch).drop 2 := by
      rw [← List.take_append_drop 2 (escapedBytes ch)]
      unfold escapedBytes
      rw [htake]
      simp
    rw [hsplit, List.cons_append, List.cons_append] at hc
    obtain ⟨f, rfl⟩ : ∃ f, fuel = f + 1 := ⟨fuel - 1, by unfold escapedBytes at hfuel; omega⟩
    obtain ⟨c', he, hb, hu⟩ := readEscape_unicode (unread_eat hc)
      (by unfold escapedBytes; rw [List.length_drop, hlen]) hval (by omega)
    refine ⟨c', f, by omega, hb, hu, ?_⟩
    rw [readStringBytes_escape hc he, utf8Bytes_toNat]
  · -- any other character stands for itself
    have hbytes : escapedBytes ch = String.utf8EncodeChar ch := by
      simp [escapedBytes, escapeChar, h1, h2, h3, h4, h5, h6, h7, h8, Char.toString]
    rw [hbytes] at hc hfuel ⊢
    obtain ⟨c', hb, hu, e⟩ := readStringBytes_plain
      (fun b hb => plainByte_of_mem_utf8EncodeChar (by omega) h1 h2 hb) c acc fuel hc hfuel
    exact ⟨c', _, Nat.le_refl _, hb, hu, e⟩

/-- The characters of a string literal, up to its closing quote, read as their UTF-8 bytes;
the closing quote is looked at and left. The induction is on the characters, each taking no
more steps than it has bytes. -/
theorem readStringBytes_chars {rest : List UInt8} (cs : List Char) :
    ∀ (c : Cursor) (acc : List UInt8) (fuel : Nat),
      c.unread = cs.flatMap escapedBytes ++ 34 :: rest →
      (cs.flatMap escapedBytes).length + 1 ≤ fuel →
      ∃ c', c'.bytes = c.bytes ∧ c'.unread = 34 :: rest ∧
        readStringBytes fuel acc c = .ok (acc.reverse ++ cs.flatMap String.utf8EncodeChar, c') := by
  induction cs with
  | nil =>
    intro c acc fuel hc hfuel
    obtain ⟨f, rfl⟩ : ∃ f, fuel = f + 1 := ⟨fuel - 1, by simp at hfuel; omega⟩
    refine ⟨{ c with peeked := true }, rfl, hc, ?_⟩
    rw [readStringBytes_close hc]
    simp
  | cons ch cs ih =>
    intro c acc fuel hc hfuel
    rw [List.flatMap_cons, List.append_assoc] at hc
    rw [List.flatMap_cons, List.length_append] at hfuel
    obtain ⟨c₁, fuel₁, hf₁, hb₁, hu₁, e₁⟩ :=
      readStringBytes_escapedBytes ch hc acc fuel (by omega)
    obtain ⟨c₂, hb₂, hu₂, e₂⟩ := ih c₁ _ fuel₁ hu₁ (by omega)
    refine ⟨c₂, hb₂.trans hb₁, hu₂, ?_⟩
    rw [e₁, e₂, List.reverse_append, List.reverse_reverse, List.flatMap_cons, List.append_assoc]

/-- **A string literal reads back as the string it quotes.** After the opening quote, the
escaped characters and the closing quote read as the string, whatever it holds. -/
theorem readString_reads (s : String) :
    Reads readString (s.toList.flatMap escapedBytes ++ [34]) (fun _ => True) s := by
  intro c rest hc _
  rw [List.append_assoc, List.singleton_append] at hc
  have hlen : (s.toList.flatMap escapedBytes).length + 1 ≤ c.bytes.size - c.index + 1 := by
    rw [← Cursor.length_unread, hc, List.length_append, List.length_cons]
    omega
  obtain ⟨c', hb, hu, e⟩ := readStringBytes_chars s.toList c [] _ hc hlen
  refine ⟨{ c' with index := c'.index + 1, peeked := false }, ?_, hb, unread_eat hu⟩
  rw [List.reverse_nil, List.nil_append, ← Text.Utf8.toList_toUTF8] at e
  simp only [readString, remaining, get, getThe, MonadStateOf.get, StateT.get, bind, StateT.bind,
    Except.bind, pure, StateT.pure, Except.pure]
  rw [e]
  simp only [Text.Utf8.decode_toUTF8]
  rfl

/-- A string literal is a quote, the characters' escaped bytes, and a quote. -/
theorem toList_toUTF8_quote (s : String) :
    (quote s).toUTF8.toList = 34 :: s.toList.flatMap escapedBytes ++ [34] := by
  rw [Text.Utf8.toList_toUTF8, quote, String.toList_append, String.toList_append,
    String.toList_join, List.flatMap_append, List.flatMap_append, List.flatMap_assoc,
    List.flatMap_map]
  rfl

end Strings

/-! ## Numbers -/

section Numbers

variable {c : Cursor} {rest : List UInt8}

/-- What may follow a number: nothing, or a byte that cannot continue it. -/
def EndsNumber (rest : List UInt8) : Prop :=
  ∀ b ∈ rest.head?, isDigit b = false ∧ b ≠ 46 ∧ b ≠ 101 ∧ b ≠ 69

theorem toNat_of_isDigit {ch : Char} (h : ch.isDigit = true) : 48 ≤ ch.toNat ∧ ch.toNat ≤ 57 := by
  simp only [Char.isDigit, Bool.and_eq_true, decide_eq_true_eq, UInt32.le_iff_toNat_le] at h
  exact ⟨h.1, h.2⟩

/-- The byte of a decimal digit character. -/
def digitByte (ch : Char) : UInt8 := UInt8.ofNat ch.toNat

theorem toNat_digitByte {ch : Char} (h : ch.isDigit = true) : (digitByte ch).toNat = ch.toNat :=
  Text.Utf8.toNat_ofNat_of_lt (by have := toNat_of_isDigit h; omega)

theorem utf8EncodeChar_of_isDigit {ch : Char} (h : ch.isDigit = true) :
    String.utf8EncodeChar ch = [digitByte ch] := by
  refine String.utf8EncodeChar_eq_singleton (Char.utf8Size_eq_one_iff.2 ?_)
  rw [UInt32.le_iff_toNat_le]
  exact Nat.le_trans (toNat_of_isDigit h).2 (by decide)

theorem isDigit_digitByte {ch : Char} (h : ch.isDigit = true) : isDigit (digitByte ch) = true := by
  have := toNat_of_isDigit h
  simp only [isDigit, Bool.and_eq_true, decide_eq_true_eq, UInt8.le_iff_toNat_le,
    toNat_digitByte h, UInt8.reduceToNat]
  omega

/-- A digit byte less `0` is the digit's value. -/
theorem toNat_digitByte_sub {ch : Char} (h : ch.isDigit = true) :
    (digitByte ch - 48).toNat = ch.toNat - '0'.toNat := by
  have := toNat_of_isDigit h
  rw [UInt8.toNat_sub_of_le _ _ (by rw [UInt8.le_iff_toNat_le, toNat_digitByte h]; simp; omega),
    toNat_digitByte h]
  rfl

/-- The text of a number is its decimal digits, one byte each. -/
theorem toList_toUTF8_toString (n : Nat) :
    (toString n).toUTF8.toList = (Nat.toDigits 10 n).map digitByte := by
  rw [Text.Utf8.toList_toUTF8, Nat.toString_eq_repr, Nat.toList_repr]
  have h : ∀ ch ∈ Nat.toDigits 10 n, String.utf8EncodeChar ch = [digitByte ch] :=
    fun ch hch => utf8EncodeChar_of_isDigit (Decimal.isDigit_of_mem_toDigits hch)
  generalize Nat.toDigits 10 n = ds at h ⊢
  induction ds with
  | nil => rfl
  | cons d ds ih =>
    rw [List.flatMap_cons, h d List.mem_cons_self, ih (fun x hx => h x (List.mem_cons_of_mem _ hx)),
      List.map_cons, List.singleton_append]

/-- A positive number is written without a leading zero. -/
theorem toDigits_eq_cons_of_pos {n : Nat} (hn : 0 < n) :
    ∃ d ds, Nat.toDigits 10 n = d :: ds ∧ d ≠ '0' := by
  induction n using Nat.strongRecOn with
  | ind n ih =>
    by_cases h10 : n < 10
    · refine ⟨_, [], Nat.toDigits_of_lt_base h10, ?_⟩
      have : ∀ k < 10, 0 < k → Nat.digitChar k ≠ '0' := by decide
      exact this n h10 hn
    · obtain ⟨d, ds, hds, hd⟩ := ih (n / 10) (by omega) (by omega)
      refine ⟨d, ds ++ Nat.toDigits 10 (n % 10), ?_, hd⟩
      rw [← List.cons_append, ← hds, Nat.toDigits_append_toDigits (by decide) (by omega)
        (Nat.mod_lt _ (by decide)), Nat.div_add_mod]

/-- Digits are appended to the significand one by one, and reading stops at the byte after them,
as long as the number they make fits 64 bits. -/
theorem readSignificand_digits (cs : List Char) (hcs : ∀ ch ∈ cs, ch.isDigit = true) :
    ∀ (c : Cursor) (acc count fuel : Nat), c.unread = cs.map digitByte ++ rest →
      EndsNumber rest → cs.length ≤ fuel →
      Nat.ofDigitChars 10 cs acc ≤ Number.significandMax →
      ∃ c', c'.bytes = c.bytes ∧ c'.unread = rest ∧
        readSignificand fuel acc count c =
          .ok ((Nat.ofDigitChars 10 cs acc, count + cs.length, false), c') := by
  induction cs with
  | nil =>
    intro c acc count fuel hc hr _ _
    rw [List.map_nil, List.nil_append] at hc
    cases fuel with
    | zero => exact ⟨c, rfl, hc, rfl⟩
    | succ fuel =>
      cases rest with
      | nil =>
        refine ⟨c, rfl, hc, ?_⟩
        simp [readSignificand, bind, StateT.bind, peek_nil hc, Except.bind, pure, StateT.pure,
          Except.pure]
      | cons b tl =>
        refine ⟨{ c with peeked := true }, rfl, hc, ?_⟩
        simp [readSignificand, bind, StateT.bind, peek_cons hc, Except.bind, pure, StateT.pure,
          Except.pure, (hr b rfl).1]
  | cons ch cs ih =>
    intro c acc count fuel hc hr hlen hmax
    obtain ⟨fuel, rfl⟩ : ∃ f, fuel = f + 1 := ⟨fuel - 1, by simp at hlen; omega⟩
    have hd := hcs ch List.mem_cons_self
    rw [List.map_cons, List.cons_append] at hc
    rw [Nat.ofDigitChars_cons] at hmax
    -- the digit keeps the significand within 64 bits, since the rest only makes it larger
    have hnext := Decimal.le_ofDigitChars cs (10 * acc + (ch.toNat - '0'.toNat))
    have hno : Number.overflows acc (ch.toNat - '0'.toNat) Number.significandMax = false := by
      simp only [Number.overflows, decide_eq_false_iff_not]
      omega
    obtain ⟨c', hb, hu, e⟩ := ih (fun x hx => hcs x (List.mem_cons_of_mem _ hx)) _
      (acc * 10 + (ch.toNat - '0'.toNat)) (count + 1) fuel (unread_eat hc) hr
      (by simp at hlen; omega) (by rw [Nat.mul_comm]; exact hmax)
    refine ⟨c', hb, hu, ?_⟩
    simp only [readSignificand, bind, StateT.bind, peek_cons hc, Except.bind,
      isDigit_digitByte hd, if_true, toNat_digitByte_sub hd, hno, Bool.false_eq_true, if_false,
      eat_eq]
    rw [e, Nat.ofDigitChars_cons, Nat.mul_comm 10 acc, List.length_cons, Nat.add_assoc,
      Nat.add_comm 1]

/-- After the digits, nothing that continues a number: the integer is sorted into its kind. -/
theorem readNumberTail_end (negative : Bool) (n : Nat) (hc : c.unread = rest)
    (hr : EndsNumber rest) :
    ∃ c', c'.bytes = c.bytes ∧ c'.unread = rest ∧
      readNumberTail negative n c = .ok (Number.ofInteger negative n, c') := by
  cases rest with
  | nil =>
    refine ⟨c, rfl, hc, ?_⟩
    simp [readNumberTail, bind, StateT.bind, peek_nil hc, Except.bind, pure, StateT.pure,
      Except.pure]
  | cons b tl =>
    obtain ⟨-, h46, h101, h69⟩ := hr b rfl
    refine ⟨{ c with peeked := true }, rfl, hc, ?_⟩
    simp [readNumberTail, bind, StateT.bind, peek_cons hc, Except.bind, h46, h101, h69, pure,
      StateT.pure, Except.pure]

/-- **The digits of an integer read as it**, sorted into its kind by the sign read before
them, when what follows cannot continue a number. -/
theorem readNumber_digits (negative : Bool) {n : Nat} (hn : n ≤ Number.significandMax) :
    Reads (readNumber negative) (toString n).toUTF8.toList EndsNumber
      (Number.ofInteger negative n) := by
  intro c rest hc hr
  rw [toList_toUTF8_toString] at hc
  rcases Nat.eq_zero_or_pos n with rfl | hpos
  · -- zero is the one number whose first digit is `0`
    have hc0 : c.unread = 48 :: rest := hc
    have hu := unread_eat hc0
    cases rest with
    | nil =>
      obtain ⟨c', hb, hu', e⟩ := readNumberTail_end negative 0 hu (fun b hb => by simp at hb)
      refine ⟨c', ?_, hb, hu'⟩
      simp only [readNumber, bind, StateT.bind, next_cons hc0, Except.bind,
        show ((48 : UInt8) == 48) = true from rfl, if_true, peek_nil hu]
      exact e
    | cons b tl =>
      have hd := (hr b rfl).1
      have hu2 : ({ { c with index := c.index + 1, peeked := false } with peeked := true } :
        Cursor).unread = b :: tl := hu
      obtain ⟨c', hb, hu', e⟩ := readNumberTail_end negative 0 hu2 hr
      refine ⟨c', ?_, hb, hu'⟩
      simp only [readNumber, bind, StateT.bind, next_cons hc0, Except.bind,
        show ((48 : UInt8) == 48) = true from rfl, if_true, peek_cons hu, hd, Bool.false_eq_true,
        if_false]
      exact e
  · -- a positive number: its first digit is no `0`, and the rest follow it
    obtain ⟨d, ds, hds, hd0⟩ := toDigits_eq_cons_of_pos hpos
    have hdigits : ∀ ch ∈ d :: ds, ch.isDigit = true :=
      fun ch hch => Decimal.isDigit_of_mem_toDigits (hds ▸ hch)
    have hd := hdigits d List.mem_cons_self
    have hval : Nat.ofDigitChars 10 ds (d.toNat - '0'.toNat) = n := by
      have := @Nat.ofDigitChars_ten_toDigits n
      rw [hds, Nat.ofDigitChars_cons, Nat.mul_zero, Nat.zero_add] at this
      exact this
    have hne : (digitByte d == 48) = false := by
      have := toNat_of_isDigit hd
      have hd0' : d.toNat ≠ 48 := fun h => hd0 (Char.toNat_inj.1 h)
      simp only [beq_eq_false_iff_ne, ne_eq, ← UInt8.toNat_inj, toNat_digitByte hd,
        UInt8.reduceToNat]
      exact hd0'
    rw [hds, List.map_cons, List.cons_append] at hc
    obtain ⟨c₁, hb₁, hu₁, e₁⟩ := readSignificand_digits ds
      (fun x hx => hdigits x (List.mem_cons_of_mem _ hx)) _ (d.toNat - '0'.toNat) 0
      (c.bytes.size - (c.index + 1)) (unread_eat hc) hr
      (by have := c.length_unread; rw [hc, List.length_cons, List.length_append,
        List.length_map] at this; omega) (by rw [hval]; exact hn)
    rw [hval] at e₁
    obtain ⟨c₂, hb₂, hu₂, e₂⟩ := readNumberTail_end negative n hu₁ hr
    refine ⟨c₂, ?_, hb₂.trans hb₁, hu₂⟩
    simp only [readNumber, bind, StateT.bind, next_cons hc, Except.bind, hne, Bool.false_eq_true,
      if_false, isDigit_digitByte hd, if_true, remaining, get, getThe, MonadStateOf.get,
      StateT.get, pure, StateT.pure, Except.pure, toNat_digitByte_sub hd]
    rw [e₁]
    simp only [Bool.false_eq_true, if_false]
    exact e₂

end Numbers

end WorkLedger.Json
