import WorkLedger.Proofs.JsonRead

/-!
# Reading JSON text by shape

A value written as JSON text reads back, shape by shape, as the datum it stands for.
`Shape.Describes n s j d` says that the value `j` has shape `s` and stands for the datum `d`,
with containers nested at most `n` deep: an integer in the range of its shape, a string, a
string that the shape's parser accepts, a list of such values, or a record written as an
object with one member per field, in order and under the field's name.

* The pieces of a container (the brackets, the commas, the keys and the colons) are read with
  the blanks around them (`nextKey_reads`, `colon_reads`, `nextElement_reads`, …), and so are
  integers and strings (`readInteger_reads`, `readStringFor_reads`).
* The elements of an array and the members of an object read as their data, one after the
  other, given that each reads alone (`readElements_reads`, `readMembers_reads`).
* A layout (`Layout`) says how values are written: the bytes of each value, the blanks before
  each element or member and after each colon. Pretty text (`prettyLayout`) and compact text
  (`compactLayout`) are two layouts.
* The text of every described value, in any layout, reads back as its datum, with the blanks
  before it and whatever may follow a value after it (`Shape.Describes.read`), and so does a
  whole pretty or compact text (`Shape.Describes.readText_pretty`,
  `Shape.Describes.readText_compact`).
-/

namespace WorkLedger.Json

/-! ## Containers -/

section Containers

variable {α : Type} {l l₁ l₂ ws ws₀ : List UInt8} {P P₁ P₂ : List UInt8 → Prop}

/-- `container body finish` reads what `body` reads and then what `finish` reads. -/
theorem container_reads {body : ReadM α} {finish : ReadM Unit} {a : α}
    (hbody : Reads body l₁ P₁ a) (hfinish : Reads finish l₂ P₂ ())
    (hP : ∀ rest, P₂ rest → P₁ (l₂ ++ rest)) : Reads (container body finish) (l₁ ++ l₂) P₂ a := by
  intro c rest hc hr
  obtain ⟨c₁, e₁, hb₁, hu₁⟩ := hbody c (l₂ ++ rest) (by rw [hc, List.append_assoc]) (hP rest hr)
  obtain ⟨c₂, e₂, hb₂, hu₂⟩ := hfinish c₁ rest hu₁ hr
  refine ⟨c₂, ?_, hb₂.trans hb₁, hu₂⟩
  simp only [container, get, getThe, MonadStateOf.get, StateT.get, bind, StateT.bind,
    Except.bind, pure, StateT.pure, Except.pure, StateT.run, e₁, e₂, set, StateT.set]

theorem fixed_reads {r : ReadM α} {a : α} (h : Reads r l P a) : Reads (fixed r) l P a := by
  have := container_reads h (Reads.pure ()) (fun rest hr => hr)
  rwa [List.append_nil] at this

/-- Blanks, then a reader that looks at the byte after them. -/
theorem skipBlanks_bind {β : Type} {f : Option UInt8 → ReadM β} {b : UInt8} {x : β}
    (hws : Blanks ws) (hb : isBlank b = false) (h : Reads (f (some b)) (b :: l) P x) :
    Reads (skipBlanks >>= f) (ws ++ b :: l) P x :=
  Reads.bind (skipBlanks_reads hws (some b)) h fun _ _ => ⟨rfl, by simpa using hb⟩

/-- Blanks, then a reader that looks at the byte after them and leaves it. -/
theorem skipBlanks_bind_peek {β : Type} {f : Option UInt8 → ReadM β} {b : UInt8} {x : β}
    (hws : Blanks ws) (h : Reads (f (some b)) [] (NextIs (some b)) x) :
    Reads (skipBlanks >>= f) ws (NextIs (some b)) x := by
  have := Reads.bind (skipBlanks_reads hws (some b)) h fun _ h => h
  rwa [List.append_nil] at this

/-- The first key of an object, after blanks. -/
theorem nextKey_first_reads (hws : Blanks ws) (key : String) :
    Reads (nextKey true) (ws ++ (quote key).toUTF8.toList) (fun _ => True) (some key) := by
  rw [toList_toUTF8_quote]
  refine skipBlanks_bind (b := 34) hws rfl ?_
  exact Reads.seq (eat_reads 34) (Reads.bind_pure some (readString_reads key)) fun _ _ => trivial

/-- A key after the one before: a comma, blanks and the key. -/
theorem nextKey_next_reads (hws : Blanks ws) (key : String) :
    Reads (nextKey false) (44 :: ws ++ (quote key).toUTF8.toList) (fun _ => True) (some key) := by
  rw [toList_toUTF8_quote, ← List.nil_append (44 :: _)]
  refine skipBlanks_bind (b := 44) blanks_nil rfl ?_
  rw [← List.singleton_append]
  refine Reads.seq (eat_reads 44) (skipBlanks_bind (b := 34) hws rfl ?_) fun _ _ => trivial
  exact Reads.seq (eat_reads 34) (Reads.bind_pure some (readString_reads key)) fun _ _ => trivial

/-- A key after the object's brace or after a comma: blanks and the key. -/
theorem nextKey_reads (first : Bool) (hws : Blanks ws) (key : String) :
    Reads (nextKey first) ((if first then [] else [44]) ++ ws ++ (quote key).toUTF8.toList)
      (fun _ => True) (some key) := by
  cases first with
  | true => exact nextKey_first_reads hws key
  | false => exact nextKey_next_reads hws key

/-- The end of an object's members: blanks before the closing brace, which is left. -/
theorem nextKey_end_reads (hws : Blanks ws) (first : Bool) :
    Reads (nextKey first) ws (NextIs (some 125)) none :=
  skipBlanks_bind_peek hws (Reads.pure _)

/-- The colon after a key. -/
theorem colon_reads (hws : Blanks ws) : Reads colon (ws ++ [58]) (fun _ => True) () :=
  skipBlanks_bind hws rfl (eat_reads 58)

/-- The closing brace of an object. -/
theorem endObject_reads (hws : Blanks ws) : Reads endObject (ws ++ [125]) (fun _ => True) () :=
  skipBlanks_bind hws rfl (eat_reads 125)

/-- The first element of an array, after blanks: it is looked at and left. -/
theorem nextElement_first_reads (hws : Blanks ws) {b : UInt8} (h93 : b ≠ 93) :
    Reads (nextElement true) ws (NextIs (some b)) true := by
  refine skipBlanks_bind_peek hws ?_
  intro c rest hc _
  refine ⟨c, ?_, rfl, hc⟩
  simp [pure, StateT.pure, Except.pure]

/-- An element after the one before: a comma and blanks, and the element is looked at. -/
theorem nextElement_next_reads (hws : Blanks ws) {b : UInt8} (h93 : b ≠ 93) :
    Reads (nextElement false) (44 :: ws) (NextIs (some b)) true := by
  rw [← List.nil_append (44 :: ws)]
  refine skipBlanks_bind (b := 44) blanks_nil rfl ?_
  rw [← List.singleton_append]
  refine Reads.seq (eat_reads 44) (skipBlanks_bind_peek hws ?_) fun _ _ => trivial
  intro c rest hc _
  refine ⟨c, ?_, rfl, hc⟩
  simp [pure, StateT.pure, Except.pure]

/-- The end of an array's elements: blanks before the closing bracket, which is left. -/
theorem nextElement_end_reads (hws : Blanks ws) (first : Bool) :
    Reads (nextElement first) ws (NextIs (some 93)) false :=
  skipBlanks_bind_peek hws (Reads.pure _)

/-- The closing bracket of an array. -/
theorem endList_reads (hws : Blanks ws) : Reads endList (ws ++ [93]) (fun _ => True) () :=
  skipBlanks_bind hws rfl (eat_reads 93)

/-- The element after an array's bracket or after a comma: blanks, and the element is looked
at. -/
theorem nextElement_reads (first : Bool) (hws : Blanks ws) {b : UInt8} (h93 : b ≠ 93) :
    Reads (nextElement first) ((if first then [] else [44]) ++ ws) (NextIs (some b)) true := by
  cases first with
  | true => exact nextElement_first_reads hws h93
  | false => exact nextElement_next_reads hws h93

/-- Entering a container below the depth limit reads nothing. -/
theorem enter_reads {depth : Nat} (h : 1 < depth) : Reads (enter depth) [] P (depth - 1) := by
  rw [enter, if_neg (by omega)]
  exact Reads.pure _

/-- A reader that starts by taking the cursor reads as what it goes on with at that cursor, which
has at least the text to read before it. -/
theorem Reads.get_bind {f : Cursor → ReadM α} {a : α}
    (h : ∀ c : Cursor, l.length < c.bytes.size - c.index + 1 → Reads (f c) l P a) :
    Reads (get >>= f) l P a := by
  intro c rest hc hr
  have hlen : l.length < c.bytes.size - c.index + 1 := by
    rw [← Cursor.length_unread, hc, List.length_append]
    omega
  exact h c hlen c rest hc hr

end Containers

/-! ## Scalars -/

section Scalars

variable {ws : List UInt8}

/-- What may follow a value in a text: nothing, a blank, a comma, or a closing bracket or
brace. -/
def EndsValue (rest : List UInt8) : Prop :=
  ∀ b ∈ rest.head?, isBlank b = true ∨ b = 44 ∨ b = 93 ∨ b = 125

/-- No byte that may follow a value continues a number. -/
theorem endsNumber_of_endsValue {rest : List UInt8} (h : EndsValue rest) : EndsNumber rest := by
  intro b hb
  have hends : ∀ b : UInt8, isBlank b = true ∨ b = 44 ∨ b = 93 ∨ b = 125 →
      isDigit b = false ∧ b ≠ 46 ∧ b ≠ 101 ∧ b ≠ 69 := by
    intro b hb
    simp only [isBlank, Bool.or_eq_true, beq_iff_eq] at hb
    rcases hb with (((rfl | rfl) | rfl) | rfl) | rfl | rfl | rfl <;> decide
  exact hends b (h b hb)

/-- A string literal, after blanks, read by a shape that expects a string. -/
theorem readStringFor_reads (hws : Blanks ws) (expecting s : String) :
    Reads (readStringFor expecting) (ws ++ (quote s).toUTF8.toList) (fun _ => True) s := by
  rw [toList_toUTF8_quote]
  refine skipBlanks_bind (b := 34) hws rfl ?_
  exact Reads.seq (eat_reads 34) (readString_reads s) fun _ _ => trivial

/-- The digits of an integer, read and checked against an integer shape that accepts it. -/
theorem readNumber_checked {bits : Option Nat} (negative : Bool) {n : Nat}
    (hn : n ≤ Number.significandMax) {d : Datum}
    (hcheck : checkNumber bits (Number.ofInteger negative n) = .ok d) :
    Reads (readNumber negative >>= fun x =>
        match checkNumber bits x with
        | .ok d => pure d
        | .error m => failRead m)
      (toString n).toUTF8.toList EndsValue d := by
  rw [← List.append_nil (toString n).toUTF8.toList]
  refine Reads.bind (readNumber_digits negative hn) ?_ fun rest h => endsNumber_of_endsValue h
  rw [hcheck]
  exact Reads.pure d

/-- An integer's text, after blanks, read by an integer shape that accepts the integer. -/
theorem readInteger_reads (hws : Blanks ws) {bits : Option Nat} (name : String) {i : Int}
    {d : Datum} (hlo : -2 ^ 63 ≤ i) (hhi : i < 2 ^ 64) (hcheck : checkInteger bits i = .ok d) :
    Reads (readInteger bits name) (ws ++ (intText i).toUTF8.toList) EndsValue d := by
  refine fixed_reads ?_
  rcases Int.lt_or_le i 0 with hneg | hnonneg
  · -- a minus sign, then the digits of the magnitude
    have htext : (intText i).toUTF8.toList = 45 :: (toString i.natAbs).toUTF8.toList := by
      rw [intText, if_pos hneg, Text.Utf8.toList_toUTF8, Text.Utf8.toList_toUTF8,
        String.toList_append, List.flatMap_append]
      rfl
    have hnum : Number.ofInteger true i.natAbs = .negative i := by
      rw [Number.ofInteger, Nat.pow_eq, if_neg (by decide), if_neg (by omega), if_pos (by omega)]
      congr 1
      omega
    rw [htext]
    refine skipBlanks_bind (b := 45) hws rfl ?_
    simp only [show ((45 : UInt8) == 45) = true from rfl, Bool.true_or, if_true]
    rw [← List.singleton_append]
    refine Reads.seq (eat_reads 45) (readNumber_checked true ?_ ?_) fun _ _ => trivial
    · simp only [Number.significandMax, Nat.pow_eq]
      omega
    · rw [hnum]
      exact hcheck
  · -- the digits alone, the first of them a digit
    obtain ⟨k, rfl⟩ := Int.eq_ofNat_of_zero_le hnonneg
    obtain ⟨ch, chs, hds⟩ : ∃ ch chs, Nat.toDigits 10 k = ch :: chs := by
      rcases Nat.eq_zero_or_pos k with rfl | hpos
      · exact ⟨'0', [], by decide⟩
      · obtain ⟨ch, chs, hds, _⟩ := toDigits_eq_cons_of_pos hpos
        exact ⟨ch, chs, hds⟩
    have hch : ch.isDigit = true := Decimal.isDigit_of_mem_toDigits (hds ▸ List.mem_cons_self)
    have hbyte := toNat_digitByte hch
    have hrange := toNat_of_isDigit hch
    have htext : (intText (k : Int)).toUTF8.toList = (toString k).toUTF8.toList := by
      rw [intText, if_neg (by omega)]
      rfl
    have hblank : isBlank (digitByte ch) = false := by
      simp only [isBlank, Bool.or_eq_false_iff, beq_eq_false_iff_ne, ne_eq, ← UInt8.toNat_inj,
        hbyte, UInt8.reduceToNat]
      omega
    have hminus : (digitByte ch == 45) = false := by
      simp only [beq_eq_false_iff_ne, ne_eq, ← UInt8.toNat_inj, hbyte, UInt8.reduceToNat]
      omega
    have hdigit := isDigit_digitByte hch
    simp only [isDigit, Bool.and_eq_true, decide_eq_true_eq] at hdigit
    rw [htext, toList_toUTF8_toString, hds, List.map_cons]
    refine skipBlanks_bind hws hblank ?_
    simp only [hminus, hdigit, Bool.false_or, decide_true, Bool.and_self, if_true,
      Bool.false_eq_true, if_false]
    rw [← List.map_cons, ← hds, ← toList_toUTF8_toString]
    refine readNumber_checked false ?_ hcheck
    simp only [Number.significandMax, Nat.pow_eq]
    omega

/-- A literal word, read byte for byte. -/
theorem expectWord_reads (w : List UInt8) : Reads (expectWord w) w (fun _ => True) () := by
  induction w with
  | nil =>
    rw [expectWord, List.forM]
    exact Reads.pure ()
  | cons x rest ih =>
    rw [expectWord, List.forM, ← List.singleton_append]
    refine Reads.seq (?_ : Reads _ [x] (fun _ => True) ()) ih fun _ _ => trivial
    rw [← List.append_nil [x]]
    refine Reads.bind (next_reads x) ?_ fun _ _ => trivial
    simp only [beq_self_eq_true, if_true]
    exact Reads.pure ()

/-- A literal: its first byte and the rest of its word, standing for `a`. -/
theorem literal_reads {α : Type} {P : List UInt8 → Prop} (b : UInt8) (w : List UInt8) (a : α) :
    Reads (do eat; expectWord w; pure a) (b :: w) P a := by
  have hword : Reads (expectWord w >>= fun _ => pure a) (w ++ []) P a :=
    Reads.seq (expectWord_reads w) (Reads.pure a) fun _ _ => trivial
  rw [List.append_nil] at hword
  show Reads _ ([b] ++ w) P a
  exact Reads.seq (eat_reads b) hword fun _ _ => trivial

/-- A variant's name, after blanks, read as the index of the first case of that name and the
shape of its content. -/
theorem readVariantName_reads (hws : Blanks ws) (name : String) {cases : List (String × Shape)}
    {key : String} {i : Nat} (hi : cases.findIdx? (·.1 == key) = some i) :
    Reads (readVariantName name cases) (ws ++ (quote key).toUTF8.toList) (fun _ => True)
      (i, (cases.getD i ("", .unit)).2) := by
  rw [readVariantName, ← List.append_nil (ws ++ _)]
  refine Reads.bind (fixed_reads (readStringFor_reads hws _ key)) ?_ fun _ _ => trivial
  simp only [hi]
  exact Reads.pure _

end Scalars

/-! ## Layouts -/

theorem toList_toUTF8_append (s t : String) :
    (s ++ t).toUTF8.toList = s.toUTF8.toList ++ t.toUTF8.toList := by
  rw [Text.Utf8.toList_toUTF8, Text.Utf8.toList_toUTF8, Text.Utf8.toList_toUTF8,
    String.toList_append, List.flatMap_append]

theorem bytes_comma : ",".toUTF8.toList = [44] := by
  rw [Text.Utf8.toList_toUTF8]
  rfl

theorem bytes_colon : ":".toUTF8.toList = [58] := by
  rw [Text.Utf8.toList_toUTF8]
  rfl

theorem bytes_bracket : "[".toUTF8.toList = [91] := by
  rw [Text.Utf8.toList_toUTF8]
  rfl

theorem bytes_brace : "\x7b".toUTF8.toList = [123] := by
  rw [Text.Utf8.toList_toUTF8]
  rfl

theorem bytes_close_bracket : "]".toUTF8.toList = [93] := by
  rw [Text.Utf8.toList_toUTF8]
  rfl

theorem bytes_close_brace : "\x7d".toUTF8.toList = [125] := by
  rw [Text.Utf8.toList_toUTF8]
  rfl

theorem bytes_null : "null".toUTF8.toList = [110, 117, 108, 108] := by
  rw [Text.Utf8.toList_toUTF8]
  rfl

theorem bytes_bool (b : Bool) :
    (if b then "true" else "false").toUTF8.toList =
      if b then [116, 114, 117, 101] else [102, 97, 108, 115, 101] := by
  cases b <;> (rw [Text.Utf8.toList_toUTF8]; rfl)

theorem blanks_space : Blanks [32] := by
  intro b hb
  rw [List.mem_singleton] at hb
  subst hb
  rfl

/-- The bytes of array elements at `level`, from the bracket or from the element before them
(`first` false) on: a comma but before the first, the blanks that lead each element, and the
element. -/
def elementsText (text : Nat → Json → List UInt8) (lead : Nat → List UInt8) (level : Nat) :
    Bool → List Json → List UInt8
  | _, [] => []
  | first, j :: rest =>
    (if first then [] else [44]) ++ lead level ++ text level j ++
      elementsText text lead level false rest

/-- The bytes of object members at `level`, as `elementsText` has elements, each a key, a colon,
the blanks after the colon and the value. -/
def membersText (text : Nat → Json → List UInt8) (lead : Nat → List UInt8) (gap : List UInt8)
    (level : Nat) : Bool → List (String × Json) → List UInt8
  | _, [] => []
  | first, (k, v) :: rest =>
    (if first then [] else [44]) ++ lead level ++ (quote k).toUTF8.toList ++ 58 :: (gap ++ text level v) ++
      membersText text lead gap level false rest

/-- How values are laid out as text: the bytes of a value standing at each nesting level, the
blanks that lead each element or member, and the blanks after a member's colon. Literals,
integers and strings are written alike in every layout; an array or an object is its bracket or
brace, its elements or members one level deeper, blanks, and the closing bracket or brace. -/
structure Layout where
  text : Nat → Json → List UInt8
  lead : Nat → List UInt8
  gap : List UInt8
  lead_blanks : ∀ level, Blanks (lead level)
  gap_blanks : Blanks gap
  null : ∀ level, text level .null = [110, 117, 108, 108]
  bool : ∀ level b, text level (.bool b) =
    if b then [116, 114, 117, 101] else [102, 97, 108, 115, 101]
  int : ∀ level i, text level (.int i) = (intText i).toUTF8.toList
  str : ∀ level s, text level (.str s) = (quote s).toUTF8.toList
  arr : ∀ level items, ∃ wsEnd, Blanks wsEnd ∧
    text level (.arr items) = 91 :: (elementsText text lead (level + 1) true items ++ wsEnd ++ [93])
  obj : ∀ level members, ∃ wsEnd, Blanks wsEnd ∧
    text level (.obj members) =
      123 :: (membersText text lead gap (level + 1) true members ++ wsEnd ++ [125])

/-- Each element whose text is not empty takes at least one byte. -/
theorem length_le_elementsText (text : Nat → Json → List UInt8) (lead : Nat → List UInt8)
    (level : Nat) (items : List Json) (hne : ∀ j ∈ items, text level j ≠ []) :
    ∀ first, items.length ≤ (elementsText text lead level first items).length := by
  induction items with
  | nil => intro _; simp
  | cons j items ih =>
    intro first
    have hrest := ih (fun j' hj' => hne j' (List.mem_cons_of_mem _ hj')) false
    have hj : 0 < (text level j).length := List.length_pos_iff.2 (hne j List.mem_cons_self)
    simp only [elementsText, List.length_append, List.length_cons]
    omega

/-- Each member takes at least the quote that opens its key. -/
theorem length_le_membersText (text : Nat → Json → List UInt8) (lead : Nat → List UInt8)
    (gap : List UInt8) (level : Nat) (members : List (String × Json)) :
    ∀ first, members.length ≤ (membersText text lead gap level first members).length := by
  induction members with
  | nil => intro _; simp
  | cons m members ih =>
    intro first
    have := ih false
    simp only [membersText, toList_toUTF8_quote, List.length_append, List.length_cons]
    omega

/-! ## Pretty text as bytes -/

section Pretty

variable (float : Float → String)

/-- The bytes of a value's pretty text at `level`. -/
def prettyText (level : Nat) (j : Json) : List UInt8 := (prettyWith float level j).toUTF8.toList

/-- A line break and the indentation of `level`: what leads each pretty element or member. -/
def prettyLead (level : Nat) : List UInt8 := ("\n" ++ indent level).toUTF8.toList

/-- A line break and an indentation are blanks. -/
theorem blanks_newline_indent (level : Nat) : Blanks (prettyLead level) := by
  intro b hb
  simp only [prettyLead, Text.Utf8.toList_toUTF8, String.toList_append, indent, List.mem_flatMap,
    String.toList_ofList, List.mem_append, List.mem_replicate] at hb
  obtain ⟨ch, hch | ⟨_, rfl⟩, hb⟩ := hb
  · rw [show "\n".toList = ['\n'] from rfl, List.mem_singleton] at hch
    subst hch
    rw [show String.utf8EncodeChar '\n' = [10] from rfl, List.mem_singleton] at hb
    subst hb
    rfl
  · rw [show String.utf8EncodeChar ' ' = [32] from rfl, List.mem_singleton] at hb
    subst hb
    rfl

theorem bytes_newline : "\n".toUTF8.toList = [10] := by
  rw [Text.Utf8.toList_toUTF8]
  rfl

theorem bytes_comma_newline : ",\n".toUTF8.toList = [44, 10] := by
  rw [Text.Utf8.toList_toUTF8]
  rfl

theorem bytes_colon_space : ": ".toUTF8.toList = [58, 32] := by
  rw [Text.Utf8.toList_toUTF8]
  rfl

theorem bytes_open_bracket : "[\n".toUTF8.toList = [91, 10] := by
  rw [Text.Utf8.toList_toUTF8]
  rfl

theorem bytes_open_brace : "\x7b\n".toUTF8.toList = [123, 10] := by
  rw [Text.Utf8.toList_toUTF8]
  rfl

theorem prettyItems_bytes (level : Nat) (rest : List Json) :
    ∀ j, (prettyItems float level (j :: rest)).toUTF8.toList =
      (indent level).toUTF8.toList ++ prettyText float level j ++
        elementsText (prettyText float) prettyLead level false rest := by
  induction rest with
  | nil =>
    intro j
    simp only [prettyItems, elementsText, prettyText, toList_toUTF8_append, List.append_nil]
  | cons k rest ih =>
    intro j
    simp only [prettyItems, elementsText, toList_toUTF8_append, ih k, bytes_comma_newline,
      prettyLead, prettyText, bytes_newline, Bool.false_eq_true, if_false, List.append_assoc,
      List.cons_append, List.nil_append]

theorem prettyMembers_bytes (level : Nat) (rest : List (String × Json)) :
    ∀ k v, (prettyMembers float level ((k, v) :: rest)).toUTF8.toList =
      (indent level).toUTF8.toList ++ (quote k).toUTF8.toList ++
        58 :: 32 :: prettyText float level v ++
          membersText (prettyText float) prettyLead [32] level false rest := by
  induction rest with
  | nil =>
    intro k v
    simp only [prettyMembers, membersText, prettyText, toList_toUTF8_append, bytes_colon_space,
      List.append_nil, List.append_assoc, List.cons_append, List.nil_append]
  | cons m rest ih =>
    intro k v
    simp only [prettyMembers, membersText, toList_toUTF8_append, ih m.1 m.2, bytes_colon_space,
      prettyLead, prettyText, bytes_comma_newline, bytes_newline, Bool.false_eq_true, if_false,
      List.append_assoc, List.cons_append, List.nil_append]

/-- Every pretty array, empty or not, is its bracket, its elements, blanks and the closing
bracket: the closing bracket of a non-empty one stands on a line of its own. -/
theorem exists_pretty_arr_bytes (level : Nat) (items : List Json) :
    ∃ wsEnd, Blanks wsEnd ∧ prettyText float level (.arr items) =
      91 :: (elementsText (prettyText float) prettyLead (level + 1) true items ++ wsEnd ++ [93]) := by
  cases items with
  | nil =>
    refine ⟨[], blanks_nil, ?_⟩
    rw [prettyText, show prettyWith float level (.arr []) = "[]" from rfl, Text.Utf8.toList_toUTF8]
    rfl
  | cons j rest =>
    refine ⟨_, blanks_newline_indent level, ?_⟩
    simp only [prettyText, prettyWith, elementsText, toList_toUTF8_append, prettyItems_bytes,
      bytes_open_bracket, prettyLead, bytes_newline, bytes_close_bracket, if_true,
      List.append_assoc, List.cons_append, List.nil_append]

/-- Every pretty object, empty or not, is its brace, its members, blanks and the closing
brace. -/
theorem exists_pretty_obj_bytes (level : Nat) (members : List (String × Json)) :
    ∃ wsEnd, Blanks wsEnd ∧ prettyText float level (.obj members) =
      123 :: (membersText (prettyText float) prettyLead [32] (level + 1) true members ++ wsEnd ++
        [125]) := by
  cases members with
  | nil =>
    refine ⟨[], blanks_nil, ?_⟩
    rw [prettyText, show prettyWith float level (.obj []) = "\x7b\x7d" from rfl,
      Text.Utf8.toList_toUTF8]
    rfl
  | cons m rest =>
    obtain ⟨k, v⟩ := m
    refine ⟨_, blanks_newline_indent level, ?_⟩
    simp only [prettyText, prettyWith, membersText, toList_toUTF8_append, prettyMembers_bytes,
      bytes_open_brace, prettyLead, bytes_newline, bytes_close_brace, if_true, List.append_assoc,
      List.cons_append, List.nil_append]

/-- Pretty text: members and elements on lines of their own, a space after each colon. -/
def prettyLayout : Layout where
  text := prettyText float
  lead := prettyLead
  gap := [32]
  lead_blanks := blanks_newline_indent
  gap_blanks := blanks_space
  null _ := bytes_null
  bool _ b := bytes_bool b
  int _ _ := rfl
  str _ _ := rfl
  arr := exists_pretty_arr_bytes float
  obj := exists_pretty_obj_bytes float

end Pretty

/-! ## Compact text as bytes -/

section Compact

variable (float : Float → String)

/-- The bytes of a value's compact text, at any level. -/
def compactText (_level : Nat) (j : Json) : List UInt8 := (compactWith float j).toUTF8.toList

theorem compactItems_bytes (level : Nat) :
    ∀ items : List Json, (compactItems float items).toUTF8.toList =
      elementsText (compactText float) (fun _ => []) level true items
  | [] => by
    rw [compactItems, elementsText, Text.Utf8.toList_toUTF8]
    rfl
  | [j] => by
    simp only [compactItems, elementsText, compactText, if_true, List.nil_append, List.append_nil]
  | j :: k :: rest => by
    show (compactWith float j ++ "," ++ compactItems float (k :: rest)).toUTF8.toList = _
    rw [toList_toUTF8_append, toList_toUTF8_append, compactItems_bytes level (k :: rest),
      bytes_comma]
    simp [elementsText, compactText]

theorem compactMembers_bytes (level : Nat) :
    ∀ members : List (String × Json), (compactMembers float members).toUTF8.toList =
      membersText (compactText float) (fun _ => []) [] level true members
  | [] => by
    rw [compactMembers, membersText, Text.Utf8.toList_toUTF8]
    rfl
  | [(k, v)] => by
    rw [compactMembers, toList_toUTF8_append, toList_toUTF8_append, bytes_colon]
    simp [membersText, compactText]
  | (k, v) :: m :: rest => by
    show (quote k ++ ":" ++ compactWith float v ++ "," ++ compactMembers float (m :: rest)).toUTF8.toList = _
    rw [toList_toUTF8_append, toList_toUTF8_append, toList_toUTF8_append,
      toList_toUTF8_append, compactMembers_bytes level (m :: rest), bytes_colon, bytes_comma]
    simp [membersText, compactText]

/-- Compact text: no blanks at all. -/
def compactLayout : Layout where
  text := compactText float
  lead _ := []
  gap := []
  lead_blanks _ := blanks_nil
  gap_blanks := blanks_nil
  null _ := bytes_null
  bool _ b := bytes_bool b
  int _ _ := rfl
  str _ _ := rfl
  arr level items := by
    refine ⟨[], blanks_nil, ?_⟩
    rw [compactText, compactWith, toList_toUTF8_append, toList_toUTF8_append,
      compactItems_bytes float (level + 1), bytes_bracket, bytes_close_bracket]
    simp
  obj level members := by
    refine ⟨[], blanks_nil, ?_⟩
    rw [compactText, compactWith, toList_toUTF8_append, toList_toUTF8_append,
      compactMembers_bytes float (level + 1), bytes_brace, bytes_close_brace]
    simp

end Compact

/-! ## Values described by a shape -/

/-- `Describes n s j d`: the value `j` has shape `s` and stands for the datum `d`, with
containers and optional values nested at most `n` deep. An integer lies in the range of its
shape, a parsed string is one that the shape's parser accepts, a record is an object with one
member per field, in the fields' order and under their names, which differ, and an optional
value present is not `null`. A choice is the name of a variant without content, or an object
whose one member is a variant's name and its content. -/
inductive Shape.Describes : Nat → Shape → Json → Datum → Prop where
  | unsigned {n bits k : Nat} (hbits : bits ≤ 64) (hk : k < 2 ^ bits) :
      Describes n (.unsigned bits) (.int k) (.nat k)
  | signed {n : Nat} {i : Int} (hlo : -2 ^ 63 ≤ i) (hhi : i < 2 ^ 63) :
      Describes n .signed64 (.int i) (.int i)
  | text {n : Nat} (s : String) : Describes n .text (.str s) (.text s)
  | parsed {n : Nat} {expecting : String} {early : Bool} {parse : String → Except String Datum}
      {s : String} {d : Datum} (h : parse s = .ok d) :
      Describes n (.parsed expecting early parse) (.str s) d
  | list {n : Nat} {s : Shape} (entries : List (Json × Datum))
      (h : ∀ e ∈ entries, Describes n s e.1 e.2) :
      Describes (n + 1) (.list s) (.arr (entries.map (·.1))) (.items (entries.map (·.2)))
  | record {n : Nat} (name : String) (entries : List (String × Shape × Json × Datum))
      (hkeys : (entries.map (·.1)).Nodup)
      (h : ∀ e ∈ entries, Describes n e.2.1 e.2.2.1 e.2.2.2) :
      Describes (n + 1) (.record name (entries.map fun e => (e.1, e.2.1)))
        (.obj (entries.map fun e => (e.1, e.2.2.1))) (.fields (entries.map (·.2.2.2)))
  | boolean {n : Nat} (b : Bool) : Describes n .boolean (.bool b) (.bool b)
  | unit {n : Nat} : Describes n .unit .null .absent
  | absent {n : Nat} {s : Shape} : Describes n (.optional s) .null .absent
  | present {n : Nat} {s : Shape} {j : Json} {d : Datum} (h : Describes n s j d)
      (hj : j ≠ .null) : Describes (n + 1) (.optional s) j (.present d)
  | variantRecord {n : Nat} (name : String) (entries : List (String × Shape × Json × Datum))
      (hkeys : (entries.map (·.1)).Nodup)
      (h : ∀ e ∈ entries, Describes n e.2.1 e.2.2.1 e.2.2.2) :
      Describes (n + 1) (.variantRecord name (entries.map fun e => (e.1, e.2.1)))
        (.obj (entries.map fun e => (e.1, e.2.2.1))) (.fields (entries.map (·.2.2.2)))
  | unitVariant {n : Nat} {name key : String} {cases : List (String × Shape)} {i : Nat}
      (hi : cases.findIdx? (·.1 == key) = some i) (hunit : (cases.getD i ("", .unit)).2 = .unit) :
      Describes n (.choice name cases) (.str key) (.variant i .absent)
  | variant {n : Nat} {name key : String} {cases : List (String × Shape)} {i : Nat} {j : Json}
      {d : Datum} (hi : cases.findIdx? (·.1 == key) = some i)
      (h : Describes n (cases.getD i ("", .unit)).2 j d) :
      Describes (n + 1) (.choice name cases) (.obj [(key, j)]) (.variant i d)

/-- A description holds at any depth above its own. -/
theorem Shape.Describes.mono {n m : Nat} {s : Shape} {j : Json} {d : Datum}
    (h : Describes n s j d) (hnm : n ≤ m) : Describes m s j d := by
  induction h generalizing m with
  | unsigned hbits hk => exact .unsigned hbits hk
  | signed hlo hhi => exact .signed hlo hhi
  | text t => exact .text t
  | parsed hparse => exact .parsed hparse
  | list entries _ ih =>
    obtain ⟨m, rfl⟩ : ∃ k, m = k + 1 := ⟨m - 1, by omega⟩
    exact .list entries fun e he => ih e he (by omega)
  | record name entries hkeys _ ih =>
    obtain ⟨m, rfl⟩ : ∃ k, m = k + 1 := ⟨m - 1, by omega⟩
    exact .record name entries hkeys fun e he => ih e he (by omega)
  | boolean b => exact .boolean b
  | unit => exact .unit
  | absent => exact .absent
  | present _ hj ih =>
    obtain ⟨m, rfl⟩ : ∃ k, m = k + 1 := ⟨m - 1, by omega⟩
    exact .present (ih (by omega)) hj
  | variantRecord name entries hkeys _ ih =>
    obtain ⟨m, rfl⟩ : ∃ k, m = k + 1 := ⟨m - 1, by omega⟩
    exact .variantRecord name entries hkeys fun e he => ih e he (by omega)
  | unitVariant hi hunit => exact .unitVariant hi hunit
  | variant hi _ ih =>
    obtain ⟨m, rfl⟩ : ∃ k, m = k + 1 := ⟨m - 1, by omega⟩
    exact .variant hi (ih (by omega))

/-- The digits of a number start with a digit. -/
theorem exists_toString_bytes (k : Nat) :
    ∃ b tl, (toString k).toUTF8.toList = b :: tl ∧ 48 ≤ b.toNat ∧ b.toNat ≤ 57 := by
  obtain ⟨ch, chs, hds⟩ : ∃ ch chs, Nat.toDigits 10 k = ch :: chs := by
    rcases Nat.eq_zero_or_pos k with rfl | hpos
    · exact ⟨'0', [], by decide⟩
    · obtain ⟨ch, chs, hds, _⟩ := toDigits_eq_cons_of_pos hpos
      exact ⟨ch, chs, hds⟩
  have hch : ch.isDigit = true := Decimal.isDigit_of_mem_toDigits (hds ▸ List.mem_cons_self)
  refine ⟨digitByte ch, chs.map digitByte, ?_, ?_⟩
  · rw [toList_toUTF8_toString, hds, List.map_cons]
  · rw [toNat_digitByte hch]
    exact toNat_of_isDigit hch

/-- The text of a negative integer is a minus sign and the digits of its magnitude. -/
theorem intText_bytes_of_neg {i : Int} (h : i < 0) :
    (intText i).toUTF8.toList = 45 :: (toString i.natAbs).toUTF8.toList := by
  rw [intText, if_pos h, Text.Utf8.toList_toUTF8, Text.Utf8.toList_toUTF8,
    String.toList_append, List.flatMap_append]
  rfl

/-- The text of a described value, in any layout, starts with a byte that is no blank and closes
no container, and that starts a literal `null` only for `null`. -/
theorem Shape.Describes.head {n : Nat} {s : Shape} {j : Json} {d : Datum}
    (h : Describes n s j d) (L : Layout) (level : Nat) :
    ∃ b tl, L.text level j = b :: tl ∧ isBlank b = false ∧ b ≠ 93 ∧ b ≠ 125 ∧
      (j ≠ .null → b ≠ 110) := by
  have hint : ∀ i : Int, ∃ b tl, L.text level (.int i) = b :: tl ∧ isBlank b = false ∧
      b ≠ 93 ∧ b ≠ 125 ∧ (Json.int i ≠ .null → b ≠ 110) := by
    intro i
    rw [L.int]
    rcases Int.lt_or_le i 0 with hneg | hnonneg
    · exact ⟨45, _, intText_bytes_of_neg hneg, rfl, by decide, by decide, fun _ => by decide⟩
    · obtain ⟨b, tl, hb, hlo, hhi⟩ := exists_toString_bytes i.natAbs
      refine ⟨b, tl, ?_, ?_, ?_, ?_, fun _ => ?_⟩
      · rw [intText, if_neg (by omega), hb]
      · simp only [isBlank, Bool.or_eq_false_iff, beq_eq_false_iff_ne, ne_eq,
          ← UInt8.toNat_inj, UInt8.reduceToNat]
        omega
      all_goals
        rw [ne_eq, ← UInt8.toNat_inj]
        simp only [UInt8.reduceToNat]
        omega
  have hstr : ∀ t : String, ∃ b tl, L.text level (.str t) = b :: tl ∧ isBlank b = false ∧
      b ≠ 93 ∧ b ≠ 125 ∧ (Json.str t ≠ .null → b ≠ 110) :=
    fun t => ⟨34, _, (L.str level t).trans (toList_toUTF8_quote t), rfl, by decide, by decide,
      fun _ => by decide⟩
  have hnull : ∃ b tl, L.text level .null = b :: tl ∧ isBlank b = false ∧ b ≠ 93 ∧
      b ≠ 125 ∧ (Json.null ≠ .null → b ≠ 110) :=
    ⟨110, _, L.null level, rfl, by decide, by decide, fun h => absurd rfl h⟩
  have hobj : ∀ members, ∃ b tl, L.text level (.obj members) = b :: tl ∧ isBlank b = false ∧
      b ≠ 93 ∧ b ≠ 125 ∧ (Json.obj members ≠ .null → b ≠ 110) := by
    intro members
    obtain ⟨_, _, hbytes⟩ := L.obj level members
    exact ⟨123, _, hbytes, rfl, by decide, by decide, fun _ => by decide⟩
  induction h with
  | unsigned => exact hint _
  | signed => exact hint _
  | text => exact hstr _
  | parsed => exact hstr _
  | list entries =>
    obtain ⟨_, _, hbytes⟩ := L.arr level (entries.map (·.1))
    exact ⟨91, _, hbytes, rfl, by decide, by decide, fun _ => by decide⟩
  | record => exact hobj _
  | boolean b =>
    cases b with
    | true => exact ⟨116, _, L.bool level true, rfl, by decide, by decide, fun _ => by decide⟩
    | false => exact ⟨102, _, L.bool level false, rfl, by decide, by decide, fun _ => by decide⟩
  | unit => exact hnull
  | absent => exact hnull
  | present _ hj ih =>
    obtain ⟨b, tl, hb, hblank, h93, h125, h110⟩ := ih
    exact ⟨b, tl, hb, hblank, h93, h125, fun _ => h110 hj⟩
  | variantRecord => exact hobj _
  | unitVariant => exact hstr _
  | variant => exact hobj _

/-! ## Reading elements and members -/

section Elements

variable {L : Layout} {fuel depth level : Nat} {wsEnd : List UInt8}

/-- After an element or a member, what follows it: the next one's comma, or the blanks and the
bracket or brace that close the container. -/
theorem endsValue_of_next {text tail : List UInt8} (htext : ∀ b ∈ text.head?, b = 44)
    (hend : Blanks wsEnd) {x : UInt8} (hx : x = 93 ∨ x = 125) (htail : NextIs (some x) tail) :
    EndsValue (text ++ wsEnd ++ tail) := by
  intro b hb
  cases text with
  | cons t text =>
    rw [List.cons_append, List.cons_append, List.head?_cons] at hb
    exact Or.inr (Or.inl (htext b hb))
  | nil =>
    cases wsEnd with
    | cons w ws =>
      rw [List.nil_append, List.cons_append, List.head?_cons, Option.mem_def,
        Option.some.injEq] at hb
      exact Or.inl (hb ▸ hend w List.mem_cons_self)
    | nil =>
      rw [List.nil_append, List.nil_append, htail.1, Option.mem_def, Option.some.injEq] at hb
      subst hb
      exact Or.inr (Or.inr hx)

/-- Blanks and a closing brace may follow a value. -/
theorem endsValue_close {wsEnd : List UInt8} (hend : Blanks wsEnd) (rest : List UInt8) :
    EndsValue (wsEnd ++ 125 :: rest) := by
  intro b hb
  cases wsEnd with
  | nil =>
    rw [List.nil_append, List.head?_cons, Option.mem_def, Option.some.injEq] at hb
    exact Or.inr (Or.inr (Or.inr hb.symm))
  | cons w ws =>
    rw [List.cons_append, List.head?_cons, Option.mem_def, Option.some.injEq] at hb
    exact Or.inl (hb ▸ hend w List.mem_cons_self)

theorem head_elementsText (items : List Json) :
    ∀ b ∈ (elementsText L.text L.lead level false items).head?, b = 44 := by
  intro b hb
  cases items with
  | nil => cases hb
  | cons j items =>
    simpa [elementsText] using hb.symm

theorem head_membersText (members : List (String × Json)) :
    ∀ b ∈ (membersText L.text L.lead L.gap level false members).head?, b = 44 := by
  intro b hb
  cases members with
  | nil => cases hb
  | cons m members =>
    simpa [membersText] using hb.symm

/-- **Array elements.** The elements' text, and the blanks before the closing bracket, read as
the data of the elements, given that each element's text reads as its datum; the bracket is
left. The induction is on the elements, with the data read so far in `acc` and the count, which
bounds the loop, above the number of elements left. -/
theorem readElements_reads {s : Shape} (hend : Blanks wsEnd) (entries : List (Json × Datum))
    (hread : ∀ e ∈ entries,
      Reads (Shape.read fuel depth s) ([] ++ L.text level e.1) EndsValue e.2)
    (hhead : ∀ e ∈ entries, ∃ b tl, L.text level e.1 = b :: tl ∧ isBlank b = false ∧ b ≠ 93) :
    ∀ (first : Bool) (acc : List Datum) (count : Nat), entries.length < count →
      Reads (readElements fuel depth s count first acc)
        (elementsText L.text L.lead level first (entries.map (·.1)) ++ wsEnd) (NextIs (some 93))
        (acc.reverse ++ entries.map (·.2)) := by
  induction entries with
  | nil =>
    intro first acc count hcount
    obtain ⟨count, rfl⟩ : ∃ c, count = c + 1 := ⟨count - 1, by simp at hcount; omega⟩
    rw [List.map_nil, List.map_nil, List.append_nil, elementsText, List.nil_append,
      ← List.append_nil wsEnd, readElements]
    exact Reads.bind (nextElement_end_reads hend first) (Reads.pure _) fun _ h => h
  | cons e rest ih =>
    intro first acc count hcount
    obtain ⟨count, rfl⟩ : ∃ c, count = c + 1 := ⟨count - 1, by simp at hcount; omega⟩
    obtain ⟨b, tl, hb, hblank, h93⟩ := hhead e List.mem_cons_self
    have htext : elementsText L.text L.lead level first ((e :: rest).map (·.1)) ++ wsEnd =
        ((if first then [] else [44]) ++ L.lead level) ++
          (([] ++ L.text level e.1) ++
            (elementsText L.text L.lead level false (rest.map (·.1)) ++ wsEnd)) := by
      simp only [List.map_cons, elementsText, List.nil_append, List.append_assoc]
    have hdata : acc.reverse ++ (e :: rest).map (·.2) = (e.2 :: acc).reverse ++ rest.map (·.2) := by
      simp
    rw [htext, hdata, readElements]
    refine Reads.bind (nextElement_reads first (L.lead_blanks level) h93) ?_ ?_
    · refine Reads.bind (hread e List.mem_cons_self) (ih ?_ ?_ false _ count ?_) ?_
      · exact fun e' he' => hread e' (List.mem_cons_of_mem _ he')
      · exact fun e' he' => hhead e' (List.mem_cons_of_mem _ he')
      · simp at hcount
        omega
      · exact fun tail htail =>
          endsValue_of_next (head_elementsText _) hend (Or.inl rfl) htail
    · intro tail _
      rw [List.nil_append, hb]
      exact ⟨rfl, fun x hx => by cases hx; exact hblank⟩

/-! ### Members -/

/-- With every field given, none is missing. -/
theorem firstMissing_map_some (fields : List (String × Shape)) (ds : List Datum) :
    firstMissing fields (ds.map some) = none := by
  rw [firstMissing, Option.map_eq_none_iff, List.find?_eq_none]
  intro p hp
  obtain ⟨-, hmem⟩ := List.of_mem_zip hp
  obtain ⟨d, -, hd⟩ := List.mem_map.1 hmem
  simp [← hd]

variable {pre post : List (String × Shape × Json × Datum)} {e : String × Shape × Json × Datum}

/-- The fields of a record, from the entries that describe it. -/
abbrev fieldsOf (entries : List (String × Shape × Json × Datum)) : List (String × Shape) :=
  entries.map fun e => (e.1, e.2.1)

/-- The fields given so far: those of `pre`, and none of `post`. -/
abbrev givenOf (pre post : List (String × Shape × Json × Datum)) : List (Option Datum) :=
  pre.map (fun e => some e.2.2.2) ++ post.map fun _ => none

/-- Under distinct keys, a member's key finds its own field. -/
theorem findIdx?_key (hkeys : ((pre ++ e :: post).map (·.1)).Nodup) :
    (fieldsOf (pre ++ e :: post)).findIdx? (·.1 == e.1) = some pre.length := by
  have hfresh : ∀ x ∈ pre, x.1 ≠ e.1 := by
    rw [List.map_append, List.nodup_append] at hkeys
    intro x hx hxe
    exact hkeys.2.2 x.1 (List.mem_map_of_mem hx) e.1 (by simp) hxe
  rw [fieldsOf, List.map_append, List.findIdx?_append, List.findIdx?_eq_none_iff.2]
  · simp [List.findIdx?_cons]
  · intro x hx
    obtain ⟨y, hy, rfl⟩ := List.mem_map.1 hx
    simpa using hfresh y hy

theorem getD_givenOf : (givenOf pre (e :: post)).getD pre.length none = none := by
  simp [givenOf, List.getD_eq_getElem?_getD]

theorem getD_fieldsOf : (fieldsOf (pre ++ e :: post)).getD pre.length ("", .any) = (e.1, e.2.1) := by
  simp [fieldsOf, List.getD_eq_getElem?_getD]

theorem setField_givenOf :
    setField (givenOf pre (e :: post)) pre.length e.2.2.2 = givenOf (pre ++ [e]) post := by
  simp [givenOf, setField, List.set_append_right]

/-- **Object members.** The members' text, and the blanks before the closing brace, read as the
record's data, given that each member's value reads as its datum after the blanks behind its
colon; the brace is left. The induction is on the members not yet read (`post`), those read
(`pre`) being given and every key finding its field. -/
theorem readMembers_reads (hend : Blanks wsEnd) (entries : List (String × Shape × Json × Datum))
    (hkeys : (entries.map (·.1)).Nodup)
    (hread : ∀ e ∈ entries, Reads (Shape.read fuel depth e.2.1)
      (L.gap ++ L.text level e.2.2.1) EndsValue e.2.2.2) :
    ∀ (post pre : List (String × Shape × Json × Datum)), pre ++ post = entries →
      ∀ (first : Bool) (count : Nat), post.length < count →
      Reads (readMembers fuel depth (fieldsOf entries) count first (givenOf pre post))
        (membersText L.text L.lead L.gap level first (post.map fun e => (e.1, e.2.2.1)) ++ wsEnd)
        (NextIs (some 125)) (.fields (entries.map (·.2.2.2))) := by
  intro post
  induction post with
  | nil =>
    intro pre hpre first count hcount
    obtain ⟨count, rfl⟩ : ∃ c, count = c + 1 := ⟨count - 1, by simp at hcount; omega⟩
    rw [List.append_nil] at hpre
    subst hpre
    have hgiven : givenOf pre [] = (pre.map (·.2.2.2)).map some := by simp [givenOf]
    rw [List.map_nil, membersText, List.nil_append, ← List.append_nil wsEnd, readMembers, hgiven]
    have hvalues : ((pre.map (·.2.2.2)).map some).map (fun d => d.getD .absent) =
        pre.map (·.2.2.2) := by
      simp
    refine Reads.bind (nextKey_end_reads hend first) ?_ fun _ h => h
    rw [firstMissing_map_some, hvalues]
    exact Reads.pure _
  | cons e post ih =>
    intro pre hpre first count hcount
    obtain ⟨count, rfl⟩ : ∃ c, count = c + 1 := ⟨count - 1, by simp at hcount; omega⟩
    subst hpre
    have htext : membersText L.text L.lead L.gap level first
          ((e :: post).map fun e => (e.1, e.2.2.1)) ++ wsEnd =
        ((if first then [] else [44]) ++ L.lead level ++ (quote e.1).toUTF8.toList) ++
        (([] ++ [58]) ++ ((L.gap ++ L.text level e.2.2.1) ++
          (membersText L.text L.lead L.gap level false (post.map fun e => (e.1, e.2.2.1)) ++
            wsEnd))) := by
      simp only [List.map_cons, membersText, List.nil_append, List.append_assoc,
        List.cons_append]
    rw [htext, readMembers]
    refine Reads.bind (nextKey_reads first (L.lead_blanks level) e.1) ?_
      fun _ _ => trivial
    simp only [findIdx?_key hkeys, getD_givenOf, Option.isSome_none, Bool.false_eq_true,
      if_false, getD_fieldsOf]
    refine Reads.seq (colon_reads blanks_nil) (Reads.bind (hread e (by simp)) ?_ ?_)
      fun _ _ => trivial
    · rw [setField_givenOf]
      exact ih (pre ++ [e]) (by simp) false count (by simp at hcount; omega)
    · exact fun tail htail => endsValue_of_next (head_membersText _) hend (Or.inr rfl) htail

/-- The text of an object of one member: its brace, the blanks that lead the member, the key,
the colon, the blanks after it, the value one level deeper, blanks and the closing brace. -/
theorem Layout.text_single_member (L : Layout) (level : Nat) (key : String) (j : Json) :
    ∃ wsEnd, Blanks wsEnd ∧ L.text level (.obj [(key, j)]) =
      123 :: ((L.lead (level + 1) ++ (quote key).toUTF8.toList) ++
        ([58] ++ ((L.gap ++ L.text (level + 1) j) ++ (wsEnd ++ [125])))) := by
  obtain ⟨wsEnd, hend, hbytes⟩ := L.obj level [(key, j)]
  refine ⟨wsEnd, hend, ?_⟩
  rw [hbytes]
  simp [membersText]

end Elements

/-! ## Reading a value back -/

/-- The closing bracket or brace of a container is what the reader of its insides stops at. -/
theorem nextIs_close {x : UInt8} (hx : isBlank x = false) (rest : List UInt8) :
    NextIs (some x) (([] ++ [x]) ++ rest) :=
  ⟨rfl, fun b hb => by cases hb; exact hx⟩

/-- **Lists.** An array whose elements read as data, given that each does one level deeper,
reads as the items of those data. -/
theorem readList_reads (L : Layout) {n f depth : Nat} {s : Shape} (entries : List (Json × Datum))
    (hentries : ∀ e ∈ entries, Shape.Describes n s e.1 e.2)
    (ih : ∀ e ∈ entries, ∀ {fuel depth : Nat} (level : Nat) {ws : List UInt8},
      n < fuel → n < depth → Blanks ws →
        Reads (Shape.read fuel depth s) (ws ++ L.text level e.1) EndsValue e.2)
    (level : Nat) {ws : List UInt8} (hf : n < f) (hdepth : n + 1 < depth) (hws : Blanks ws) :
    Reads (Shape.read (f + 1) depth (.list s)) (ws ++ L.text level (.arr (entries.map (·.1))))
      EndsValue (.items (entries.map (·.2))) := by
  -- each element reads at one level deeper, after the blanks that lead it
  have hread : ∀ e ∈ entries, Reads (Shape.read f (depth - 1) s)
      ([] ++ L.text (level + 1) e.1) EndsValue e.2 :=
    fun e he => ih e he (level + 1) hf (by omega) blanks_nil
  have hhead : ∀ e ∈ entries, ∃ b tl, L.text (level + 1) e.1 = b :: tl ∧
      isBlank b = false ∧ b ≠ 93 := by
    intro e he
    obtain ⟨b, tl, hb, hblank, h93, -⟩ := (hentries e he).head L (level + 1)
    exact ⟨b, tl, hb, hblank, h93⟩
  obtain ⟨wsEnd, hend, hbytes⟩ := L.arr level (entries.map (·.1))
  have hlen := length_le_elementsText L.text L.lead (level + 1) (entries.map (·.1))
    (fun j hj => by
      obtain ⟨e, he, rfl⟩ := List.mem_map.1 hj
      obtain ⟨b, tl, hb, -⟩ := hhead e he
      rw [hb]
      exact List.cons_ne_nil b tl) true
  rw [List.length_map] at hlen
  rw [Shape.read, hbytes]
  refine fixed_reads (skipBlanks_bind hws rfl ?_)
  rw [← List.nil_append (91 :: _)]
  refine Reads.bind (enter_reads (P := fun _ => True) (by omega)) ?_ fun _ _ => trivial
  rw [← List.singleton_append]
  refine Reads.seq (eat_reads 91) (Reads.get_bind fun c hc => ?_) fun _ _ => trivial
  refine Reads.bind_pure Datum.items (container_reads
    (readElements_reads hend entries hread hhead true [] _ ?_)
    (Reads.mono (endList_reads blanks_nil) fun _ _ => trivial)
    fun rest _ => nextIs_close rfl rest)
  simp only [List.length_append] at hc
  omega

/-- **Variants with content.** An object of one member, a case's name and its content, reads as
that case with the datum of its content, given that the content reads one level deeper. -/
theorem readVariant_reads (L : Layout) {n f depth : Nat} {name key : String}
    {cases : List (String × Shape)} {i : Nat} {j : Json} {d : Datum}
    (hi : cases.findIdx? (·.1 == key) = some i)
    (ih : ∀ {fuel depth : Nat} (level : Nat) {ws : List UInt8}, n < fuel → n < depth → Blanks ws →
      Reads (Shape.read fuel depth (cases.getD i ("", .unit)).2) (ws ++ L.text level j) EndsValue d)
    (level : Nat) {ws : List UInt8} (hf : n < f) (hdepth : n + 1 < depth) (hws : Blanks ws) :
    Reads (Shape.read (f + 1) depth (.choice name cases)) (ws ++ L.text level (.obj [(key, j)]))
      EndsValue (.variant i d) := by
  obtain ⟨wsEnd, hend, hbytes⟩ := L.text_single_member level key j
  rw [Shape.read, hbytes]
  refine skipBlanks_bind hws rfl ?_
  rw [← List.nil_append (123 :: _)]
  refine Reads.bind (enter_reads (P := fun _ => True) (by omega)) ?_ fun _ _ => trivial
  rw [← List.singleton_append]
  refine Reads.seq (eat_reads 123) ?_ fun _ _ => trivial
  refine Reads.bind (readVariantName_reads (L.lead_blanks _) name hi) ?_ fun _ _ => trivial
  refine Reads.seq (colon_reads blanks_nil) ?_ fun _ _ => trivial
  -- the content reads one level deeper, and the object closes behind it
  refine Reads.bind (ih (level + 1) hf (by omega) L.gap_blanks) ?_
    fun rest _ => by
      rw [List.append_assoc]
      exact endsValue_close hend rest
  refine skipBlanks_bind hend rfl ?_
  exact Reads.seq (eat_reads 125) (Reads.pure _) fun _ _ => trivial

/-- **Records.** An object whose members' values read as the data of the fields, given that
each does, one level deeper, reads as the record of those data. -/
theorem readRecord_reads (L : Layout) {n f depth : Nat} (expecting : String)
    (entries : List (String × Shape × Json × Datum)) (hkeys : (entries.map (·.1)).Nodup)
    (ih : ∀ e ∈ entries, ∀ {fuel depth : Nat} (level : Nat) {ws : List UInt8},
      n < fuel → n < depth → Blanks ws →
        Reads (Shape.read fuel depth e.2.1) (ws ++ L.text level e.2.2.1) EndsValue e.2.2.2)
    (level : Nat) {ws : List UInt8} (hf : n < f) (hdepth : n + 1 < depth) (hws : Blanks ws) :
    Reads (readRecord f depth expecting (entries.map fun e => (e.1, e.2.1)))
      (ws ++ L.text level (.obj (entries.map fun e => (e.1, e.2.2.1)))) EndsValue
      (.fields (entries.map (·.2.2.2))) := by
  -- each member's value reads at one level deeper, after the blanks behind its colon
  have hread : ∀ e ∈ entries, Reads (Shape.read f (depth - 1) e.2.1)
      (L.gap ++ L.text (level + 1) e.2.2.1) EndsValue e.2.2.2 :=
    fun e he => ih e he (level + 1) hf (by omega) L.gap_blanks
  have hnone : (fieldsOf entries).map (fun _ => (none : Option Datum)) = givenOf [] entries := by
    rw [givenOf, fieldsOf, List.map_nil, List.nil_append, List.map_map]
    rfl
  obtain ⟨wsEnd, hend, hbytes⟩ := L.obj level (entries.map fun e => (e.1, e.2.2.1))
  have hlen := length_le_membersText L.text L.lead L.gap (level + 1)
    (entries.map fun e => (e.1, e.2.2.1)) true
  rw [List.length_map] at hlen
  rw [readRecord, hbytes]
  refine fixed_reads (skipBlanks_bind hws rfl ?_)
  rw [← List.nil_append (123 :: _)]
  refine Reads.bind (enter_reads (P := fun _ => True) (by omega)) ?_ fun _ _ => trivial
  rw [← List.singleton_append]
  refine Reads.seq (eat_reads 123) (Reads.get_bind fun c hc => ?_) fun _ _ => trivial
  rw [hnone]
  refine container_reads (readMembers_reads hend entries hkeys hread entries [] rfl true _ ?_)
    (Reads.mono (endObject_reads blanks_nil) fun _ _ => trivial)
    fun rest _ => nextIs_close rfl rest
  simp only [List.length_append] at hc
  omega

/-- **A described value reads back from its text, in any layout.** After any blanks, the text
of a value of shape `s` reads by `Shape.read` as the datum it stands for, as long as the fuel
and the depth left exceed its nesting, and stops where the text ends, before whatever may follow
a value. The induction is on the description: one case per shape, the containers through the
loops over their elements and members. -/
theorem Shape.Describes.read {n : Nat} {s : Shape} {j : Json} {d : Datum}
    (h : Describes n s j d) (L : Layout) :
    ∀ {fuel depth : Nat} (level : Nat) {ws : List UInt8}, n < fuel → n < depth → Blanks ws →
      Reads (Shape.read fuel depth s) (ws ++ L.text level j) EndsValue d := by
  induction h with
  | unsigned hbits hk =>
    rename_i bits k
    intro fuel depth level ws hfuel _ hws
    obtain ⟨f, rfl⟩ : ∃ f, fuel = f + 1 := ⟨fuel - 1, by omega⟩
    have hpow : 2 ^ bits ≤ 2 ^ 64 := Nat.pow_le_pow_right (by decide) hbits
    have hcheck : checkInteger (some bits) (k : Int) = .ok (.nat k) := by
      rw [checkInteger, Int.pow_eq, if_neg (by omega), if_pos (by exact_mod_cast hk),
        Int.toNat_natCast]
    rw [Shape.read, L.int]
    exact readInteger_reads hws _ (by omega) (by exact_mod_cast Nat.lt_of_lt_of_le hk hpow) hcheck
  | signed hlo hhi =>
    intro fuel depth level ws hfuel _ hws
    obtain ⟨f, rfl⟩ : ∃ f, fuel = f + 1 := ⟨fuel - 1, by omega⟩
    rw [Shape.read, L.int]
    exact readInteger_reads hws _ hlo (by omega) (by rw [checkInteger, Int.pow_eq, if_pos hhi])
  | text t =>
    intro fuel depth level ws hfuel _ hws
    obtain ⟨f, rfl⟩ : ∃ f, fuel = f + 1 := ⟨fuel - 1, by omega⟩
    rw [Shape.read, L.str]
    exact Reads.mono (fixed_reads (Reads.bind_pure Datum.text (readStringFor_reads hws _ t)))
      fun _ _ => trivial
  | parsed hparse =>
    intro fuel depth level ws hfuel _ hws
    obtain ⟨f, rfl⟩ : ∃ f, fuel = f + 1 := ⟨fuel - 1, by omega⟩
    rw [Shape.read, L.str, ← List.append_nil (ws ++ _)]
    refine Reads.bind (fixed_reads (readStringFor_reads hws _ _)) ?_ fun _ _ => trivial
    simp only [hparse]
    exact Reads.pure _
  | list entries hentries ih =>
    intro fuel depth level ws hfuel hdepth hws
    obtain ⟨f, rfl⟩ : ∃ f, fuel = f + 1 := ⟨fuel - 1, by omega⟩
    exact readList_reads L entries hentries ih level (by omega) hdepth hws
  | record name entries hkeys hentries ih =>
    intro fuel depth level ws hfuel hdepth hws
    obtain ⟨f, rfl⟩ : ∃ f, fuel = f + 1 := ⟨fuel - 1, by omega⟩
    rw [Shape.read]
    exact readRecord_reads L _ entries hkeys ih level (by omega) hdepth hws
  | boolean b =>
    intro fuel depth level ws hfuel _ hws
    obtain ⟨f, rfl⟩ : ∃ f, fuel = f + 1 := ⟨fuel - 1, by omega⟩
    rw [Shape.read, L.bool]
    refine fixed_reads ?_
    cases b with
    | true => exact skipBlanks_bind hws rfl (literal_reads 116 _ _)
    | false => exact skipBlanks_bind hws rfl (literal_reads 102 _ _)
  | unit =>
    intro fuel depth level ws hfuel _ hws
    obtain ⟨f, rfl⟩ : ∃ f, fuel = f + 1 := ⟨fuel - 1, by omega⟩
    rw [Shape.read, L.null]
    exact fixed_reads (skipBlanks_bind hws rfl (literal_reads 110 _ _))
  | absent =>
    intro fuel depth level ws hfuel _ hws
    obtain ⟨f, rfl⟩ : ∃ f, fuel = f + 1 := ⟨fuel - 1, by omega⟩
    rw [Shape.read, L.null]
    exact skipBlanks_bind hws rfl (literal_reads 110 _ _)
  | present hdesc hj ih =>
    rename_i n s j d
    intro fuel depth level ws hfuel hdepth hws
    obtain ⟨f, rfl⟩ : ∃ f, fuel = f + 1 := ⟨fuel - 1, by omega⟩
    -- the value present starts with no `n`, so the reader does not take it for `null`
    obtain ⟨b, tl, hb, hblank, -, -, h110⟩ := hdesc.head L level
    have hread : Reads (Shape.read f depth s) ([] ++ L.text level j) EndsValue d :=
      ih level (by omega) (by omega) blanks_nil
    rw [hb] at hread
    rw [Shape.read, hb]
    refine skipBlanks_bind hws hblank ?_
    split
    · next heq => exact absurd (Option.some.inj heq) (h110 hj)
    · exact Reads.bind_pure Datum.present hread
  | variantRecord name entries hkeys hentries ih =>
    intro fuel depth level ws hfuel hdepth hws
    obtain ⟨f, rfl⟩ : ∃ f, fuel = f + 1 := ⟨fuel - 1, by omega⟩
    rw [Shape.read]
    exact readRecord_reads L _ entries hkeys ih level (by omega) hdepth hws
  | unitVariant hi hunit =>
    rename_i n name key cases i
    intro fuel depth level ws hfuel _ hws
    obtain ⟨f, rfl⟩ : ∃ f, fuel = f + 1 := ⟨fuel - 1, by omega⟩
    -- a variant without content is its name, as a string
    obtain ⟨l, hl⟩ : ∃ l, (quote key).toUTF8.toList = 34 :: l :=
      ⟨_, toList_toUTF8_quote key⟩
    rw [Shape.read, L.str, hl]
    refine skipBlanks_bind hws rfl ?_
    rw [← hl, ← List.append_nil (quote key).toUTF8.toList]
    refine Reads.bind (readVariantName_reads blanks_nil name hi) ?_ fun _ _ => trivial
    simp only [hunit]
    exact Reads.pure _
  | variant hi hdesc ih =>
    intro fuel depth level ws hfuel hdepth hws
    obtain ⟨f, rfl⟩ : ∃ f, fuel = f + 1 := ⟨fuel - 1, by omega⟩
    exact readVariant_reads L hi ih level (by omega) hdepth hws

/-- A whole text is read as `d` when the value's reader takes all of it. -/
theorem Shape.readText_of_reads {s : Shape} {bytes : ByteArray} {d : Datum}
    (h : Reads (Shape.read 300 128 s) bytes.toList (fun rest => rest = []) d) (source : Source) :
    s.readText bytes source = .ok d := by
  obtain ⟨c₁, e₁, -, hu₁⟩ := h (Cursor.start bytes source) []
    (by rw [Cursor.unread, Cursor.start, List.drop_zero, List.append_nil]) rfl
  -- nothing but the end is left, so the check for trailing characters finds none
  obtain ⟨c₂, e₂, -, -⟩ := skipBlanks_reads blanks_nil none c₁ [] hu₁ ⟨rfl, fun b hb => by cases hb⟩
  simp only [Shape.readText, StateT.run, bind, StateT.bind, Except.bind, e₁, e₂]
  rfl

/-- A described value's whole text, in a layout whose text of the value at level zero is the
given bytes, reads back, when it nests less deep than the reader allows. -/
theorem Shape.Describes.readText {n : Nat} {s : Shape} {j : Json} {d : Datum}
    (h : Describes n s j d) (hn : n < 128) (L : Layout) {text : String}
    (htext : text.toUTF8.toList = L.text 0 j) (source : Source) :
    s.readText text.toUTF8 source = .ok d := by
  have hread : Reads (Shape.read 300 128 s) ([] ++ L.text 0 j) EndsValue d :=
    h.read L 0 (by omega) hn blanks_nil
  rw [List.nil_append, ← htext] at hread
  exact Shape.readText_of_reads (hread.mono fun _ hr => by simp [hr, EndsValue]) source

/-- **A described value reads back from its whole pretty text**, when it nests less deep than
the reader allows: nothing but the value is in the text. -/
theorem Shape.Describes.readText_pretty {n : Nat} {s : Shape} {j : Json} {d : Datum}
    (h : Describes n s j d) (hn : n < 128) (float : Float → String) (source : Source) :
    s.readText (prettyWith float 0 j).toUTF8 source = .ok d :=
  h.readText hn (prettyLayout float) rfl source

/-- **A described value reads back from its whole compact text**, when it nests less deep than
the reader allows. -/
theorem Shape.Describes.readText_compact {n : Nat} {s : Shape} {j : Json} {d : Datum}
    (h : Describes n s j d) (hn : n < 128) (float : Float → String) (source : Source) :
    s.readText (compactWith float j).toUTF8 source = .ok d :=
  h.readText hn (compactLayout float) rfl source

end WorkLedger.Json
