import WorkLedger.Toml.Document
import WorkLedger.Proofs.Utf8

/-!
# Reading TOML text: the combinators

What a parser does with the bytes in front of it. `Parser.Reads p text follow a` says that `p`,
started where `text` and then anything that `follow` allows remain, gives `a` and stops right
after `text`; `Parser.Refuses p here` says that it fails without committing wherever what
remains is allowed by `here`, so that an alternative is tried next. Every combinator passes both
on, and a parser read again and again reads its texts one after the other until it refuses
(`Parser.ReadsMany`, `Parser.reads_many`).

The text of bytes read from a string is that string (`Parser.text_toUTF8`).
-/

namespace WorkLedger.Toml.Parser

variable {α β : Type}

/-! ## The bytes in front -/

section Bytes

variable {input : ByteArray} {pos : Nat} {b : UInt8} {l l₁ l₂ : List UInt8}

theorem getElem?_eq_toList (input : ByteArray) (pos : Nat) : input[pos]? = input.toList[pos]? := by
  by_cases h : pos < input.size
  · rw [getElem?_pos input pos h, List.getElem?_eq_getElem (by simpa using h)]
    simp [ByteArray.getElem_eq_getElem_data, ByteArray.toList_eq]
  · rw [getElem?_neg input pos h, List.getElem?_eq_none (by simpa using h)]

theorem getElem?_of_drop (h : input.toList.drop pos = b :: l) : input[pos]? = some b := by
  rw [getElem?_eq_toList, ← Nat.add_zero pos, ← List.getElem?_drop, h]
  rfl

theorem getElem?_of_drop_nil (h : input.toList.drop pos = []) : input[pos]? = none := by
  rw [getElem?_eq_toList, ← Nat.add_zero pos, ← List.getElem?_drop, h]
  rfl

theorem drop_succ_of_drop (h : input.toList.drop pos = b :: l) :
    input.toList.drop (pos + 1) = l := by
  rw [← List.drop_drop, h]
  rfl

theorem drop_add_of_drop (h : input.toList.drop pos = l₁ ++ l₂) :
    input.toList.drop (pos + l₁.length) = l₂ := by
  rw [← List.drop_drop, h, List.drop_left]

theorem length_le_of_drop (h : input.toList.drop pos = l₁ ++ l₂) :
    l₁.length ≤ input.size - pos := by
  have := congrArg List.length h
  simp only [List.length_drop, ByteArray.length_toList, List.length_append] at this
  omega

theorem toList_extract_of_drop (h : input.toList.drop pos = l₁ ++ l₂) :
    (input.extract pos (pos + l₁.length)).toList = l₁ := by
  rw [ByteArray.toList_eq, ByteArray.data_extract, Array.toList_extract, List.extract_eq_take_drop,
    ← ByteArray.toList_eq, h, Nat.add_sub_cancel_left, List.take_left]

end Bytes

/-- The text of the bytes of a string is that string. -/
theorem text_toUTF8 (s : String) : Grammar.text s.toUTF8.toList = s := by
  have h : (⟨s.toUTF8.toList.toArray⟩ : ByteArray) = s.toByteArray := by
    simp [ByteArray.toList_eq]
  simp only [Grammar.text, String.fromUTF8?, h]
  rw [dif_pos s.isValidUTF8]
  rfl

/-- The text of the bytes of some characters is the string of those characters. -/
theorem text_flatMap (cs : List Char) :
    Grammar.text (cs.flatMap String.utf8EncodeChar) = String.ofList cs := by
  rw [← text_toUTF8 (String.ofList cs), Text.Utf8.toList_toUTF8, String.toList_ofList]

theorem bind_apply (p : Parser α) (f : α → Parser β) (input : ByteArray) (pos : Nat) :
    (p >>= f) input pos = match p input pos with
      | .ok (a, pos') => f a input pos'
      | .error e => .error e := rfl

theorem pure_apply (a : α) (input : ByteArray) (pos : Nat) :
    (Pure.pure a : Parser α) input pos = .ok (a, pos) := rfl

/-! ## Reading and refusing -/

/-- `p`, started where `text` and then any `rest` that `follow` allows remain, gives `a` and
stops right after `text`. -/
def Reads (p : Parser α) (text : List UInt8) (follow : List UInt8 → Prop) (a : α) : Prop :=
  ∀ (input : ByteArray) (pos : Nat) (rest : List UInt8), input.toList.drop pos = text ++ rest →
    follow rest → p input pos = .ok (a, pos + text.length)

/-- `p` fails without committing wherever what remains is allowed by `here`. -/
def Refuses (p : Parser α) (here : List UInt8 → Prop) : Prop :=
  ∀ (input : ByteArray) (pos : Nat), here (input.toList.drop pos) →
    ∃ e : Failure, p input pos = .error e ∧ e.committed = false

namespace Reads

variable {p : Parser α} {l l₁ l₂ : List UInt8} {P P₁ P₂ : List UInt8 → Prop} {a : α}

theorem pure (a : α) : Reads (Pure.pure a) [] P a :=
  fun _ pos _ _ _ => by rw [List.length_nil, Nat.add_zero]; rfl

/-- Two parsers in sequence read their texts one after the other, as long as what the first
may be followed by takes in the second's text and whatever may follow that. -/
theorem bind {f : α → Parser β} {b : β} (h₁ : Reads p l₁ P₁ a) (h₂ : Reads (f a) l₂ P₂ b)
    (hP : ∀ rest, P₂ rest → P₁ (l₂ ++ rest)) : Reads (p >>= f) (l₁ ++ l₂) P₂ b := by
  intro input pos rest hd hr
  rw [List.append_assoc] at hd
  rw [bind_apply, h₁ input pos _ hd (hP rest hr), List.length_append, ← Nat.add_assoc]
  exact h₂ input _ rest (drop_add_of_drop hd) hr

/-- What follows may be required less of. -/
theorem mono (h : Reads p l P₁ a) (hP : ∀ rest, P₂ rest → P₁ rest) : Reads p l P₂ a :=
  fun input pos rest hd hr => h input pos rest hd (hP rest hr)

/-- A parser whose value is dropped reads what it reads. -/
theorem skip (h : Reads p l P a) : Reads (p >>= fun _ => Pure.pure ()) l P () := by
  intro input pos rest hd hr
  rw [bind_apply, h input pos rest hd hr]
  rfl

theorem map (f : α → β) (h : Reads p l P a) : Reads (p >>= fun x => Pure.pure (f x)) l P (f a) := by
  intro input pos rest hd hr
  rw [bind_apply, h input pos rest hd hr]
  rfl

end Reads

namespace Refuses

variable {p : Parser α} {l : List UInt8} {P Q : List UInt8 → Prop}

/-- A parser whose first step refuses refuses. -/
theorem bind (h : Refuses p P) (f : α → Parser β) : Refuses (p >>= f) P := by
  intro input pos hp
  obtain ⟨e, he, hc⟩ := h input pos hp
  exact ⟨e, by rw [bind_apply, he], hc⟩

/-- A parser whose second step refuses after the first has read `l` refuses. -/
theorem bind_of_reads {a : α} {f : α → Parser β} (h₁ : Reads p l P a) (h₂ : Refuses (f a) Q) :
    Refuses (p >>= f) fun u => ∃ rest, u = l ++ rest ∧ P rest ∧ Q rest := by
  rintro input pos ⟨rest, hd, hr, hq⟩
  obtain ⟨e, he, hc⟩ := h₂ input (pos + l.length) (by rwa [drop_add_of_drop hd])
  refine ⟨e, ?_, hc⟩
  rw [bind_apply, h₁ input pos rest hd hr]
  exact he

theorem mono (h : Refuses p P) (hQ : ∀ u, Q u → P u) : Refuses p Q :=
  fun input pos hq => h input pos (hQ _ hq)

theorem or (hP : Refuses p P) (hQ : Refuses p Q) : Refuses p fun u => P u ∨ Q u :=
  fun input pos hu => hu.elim (hP input pos) (hQ input pos)

end Refuses

/-! ## Combinators -/

section Combinators

variable {p q : Parser α} {l : List UInt8} {P Q : List UInt8 → Prop} {a : α}

theorem Reads.orElse_left (h : Reads p l P a) (q : Parser α) : Reads (orElse p q) l P a := by
  intro input pos rest hd hr
  unfold orElse
  rw [h input pos rest hd hr]

/-- After a refusal of the first branch, `orElse` reads what the second reads. -/
theorem Reads.orElse_right (hp : Refuses p Q) (hq : Reads q l P a)
    (hQ : ∀ rest, P rest → Q (l ++ rest)) : Reads (orElse p q) l P a := by
  intro input pos rest hd hr
  obtain ⟨e, he, hc⟩ := hp input pos (by rw [hd]; exact hQ rest hr)
  unfold orElse
  rw [he]
  simp only [hc, Bool.false_eq_true, if_false]
  exact hq input pos rest hd hr

theorem Refuses.orElse (hp : Refuses p P) (hq : Refuses q P) : Refuses (orElse p q) P := by
  intro input pos hu
  obtain ⟨e, he, hc⟩ := hp input pos hu
  unfold Parser.orElse
  rw [he]
  simp only [hc, Bool.false_eq_true, if_false]
  exact hq input pos hu

theorem Reads.optional (h : Reads p l P a) : Reads (optional p) l P (some a) := by
  intro input pos rest hd hr
  unfold Parser.optional
  rw [h input pos rest hd hr]

theorem Refuses.optional (h : Refuses p P) : Reads (optional p) [] P none := by
  intro input pos rest hd hr
  obtain ⟨e, he, hc⟩ := h input pos (by rwa [hd])
  unfold Parser.optional
  rw [he]
  simp [hc]

theorem Reads.commit (h : Reads p l P a) : Reads (commit p) l P a := by
  intro input pos rest hd hr
  unfold Parser.commit
  rw [h input pos rest hd hr]

theorem Reads.context (c : Context) (h : Reads p l P a) : Reads (context c p) l P a := by
  intro input pos rest hd hr
  unfold Parser.context
  rw [h input pos rest hd hr]

theorem Refuses.context (c : Context) (h : Refuses p P) : Refuses (context c p) P := by
  intro input pos hu
  obtain ⟨e, he, hc⟩ := h input pos hu
  refine ⟨{ e with contexts := e.contexts ++ [c] }, ?_, hc⟩
  unfold Parser.context
  rw [he]

theorem Reads.tryMap {f : α → Except String β} {b : β} (h : Reads p l P a) (hf : f a = .ok b) :
    Reads (tryMap p f) l P b := by
  intro input pos rest hd hr
  simp only [Parser.tryMap, h input pos rest hd hr, hf]

theorem Refuses.tryMap (f : α → Except String β) (h : Refuses p P) : Refuses (tryMap p f) P := by
  intro input pos hu
  obtain ⟨e, he, hc⟩ := h input pos hu
  exact ⟨e, by unfold Parser.tryMap; rw [he], hc⟩

theorem Reads.verify {ok : α → Bool} (h : Reads p l P a) (hok : ok a = true) :
    Reads (verify p ok) l P a := by
  intro input pos rest hd hr
  simp only [Parser.verify, h input pos rest hd hr, hok, if_true]

/-- `andThen p q` reads what `p` reads when `q` reads all of it. -/
theorem Reads.andThen {p : Parser Unit} (hp : Reads p l P ()) (hq : Reads q l (· = []) a) :
    Reads (andThen p q) l P a := by
  intro input pos rest hd hr
  have hx : (input.extract pos (pos + l.length)).toList.drop 0 = l ++ [] := by
    rw [toList_extract_of_drop hd, List.drop_zero, List.append_nil]
  unfold Parser.andThen
  rw [hp input pos rest hd hr]
  simp only
  rw [hq _ 0 [] hx rfl]

theorem Refuses.andThen {p : Parser Unit} (h : Refuses p P) (q : Parser α) :
    Refuses (andThen p q) P := by
  intro input pos hu
  obtain ⟨e, he, hc⟩ := h input pos hu
  exact ⟨e, by unfold Parser.andThen; rw [he], hc⟩

/-- `recognize p` gives the bytes that `p` reads. -/
theorem Reads.recognize (h : Reads p l P a) : Reads (recognize p) l P l := by
  intro input pos rest hd hr
  simp only [Parser.recognize, h input pos rest hd hr, toList_extract_of_drop hd]

theorem Reads.lookahead (h : Reads p l P a) :
    Reads (Grammar.lookahead p) [] (fun r => ∃ r', r = l ++ r' ∧ P r') () := by
  rintro input pos rest hd ⟨r', rfl, hr⟩
  unfold Grammar.lookahead
  rw [h input pos r' (by rw [hd, List.nil_append]) hr]
  rfl

theorem Refuses.lookahead (h : Refuses p P) : Refuses (Grammar.lookahead p) P := by
  intro input pos hu
  obtain ⟨e, he, hc⟩ := h input pos hu
  exact ⟨e, by unfold Grammar.lookahead; rw [he], hc⟩

theorem Refuses.recognize (h : Refuses p P) : Refuses (Parser.recognize p) P := by
  intro input pos hu
  obtain ⟨e, he, hc⟩ := h input pos hu
  exact ⟨e, by simp [Parser.recognize, he], hc⟩

end Combinators

/-! ## Bytes and literals -/

section Single

variable {b : UInt8} {f : UInt8 → Bool}

theorem reads_byte (b : UInt8) : Reads (byte b) [b] (fun _ => True) () := by
  intro input pos rest hd _
  simp [byte, getElem?_of_drop hd]

theorem refuses_byte (b : UInt8) : Refuses (byte b) fun u => u.head? ≠ some b := by
  intro input pos hu
  cases hd : input.toList.drop pos with
  | nil => exact ⟨⟨pos, [], none, false⟩, by simp [byte, getElem?_of_drop_nil hd], rfl⟩
  | cons c tl =>
    rw [hd, List.head?_cons, ne_eq, Option.some.injEq] at hu
    exact ⟨⟨pos, [], none, false⟩, by simp [byte, getElem?_of_drop hd, hu], rfl⟩

theorem reads_byteIf (hb : f b = true) : Reads (byteIf f) [b] (fun _ => True) b := by
  intro input pos rest hd _
  simp [byteIf, getElem?_of_drop hd, hb]

theorem refuses_byteIf (f : UInt8 → Bool) :
    Refuses (byteIf f) fun u => ∀ c ∈ u.head?, f c = false := by
  intro input pos hu
  cases hd : input.toList.drop pos with
  | nil => exact ⟨⟨pos, [], none, false⟩, by simp [byteIf, getElem?_of_drop_nil hd], rfl⟩
  | cons c tl =>
    rw [hd] at hu
    exact ⟨⟨pos, [], none, false⟩, by simp [byteIf, getElem?_of_drop hd, hu c rfl], rfl⟩

theorem reads_anyByte (b : UInt8) : Reads anyByte [b] (fun _ => True) b := by
  intro input pos rest hd _
  simp [anyByte, getElem?_of_drop hd]

theorem reads_peek (x : Option UInt8) : Reads peek [] (fun r => r.head? = x) x := by
  intro input pos rest hd hr
  rw [List.nil_append] at hd
  subst hr
  cases rest with
  | nil => simp [peek, getElem?_of_drop_nil hd]
  | cons c tl => simp [peek, getElem?_of_drop hd]

theorem reads_peekTwo {c d : UInt8} :
    Reads peekTwo [] (fun r => r.take 2 = [c, d]) (some (c, d)) := by
  intro input pos rest hd hr
  rw [List.nil_append] at hd
  match rest, hr with
  | x :: y :: tl, hr =>
    simp only [List.take_succ_cons, List.take_zero, List.cons.injEq, and_true] at hr
    obtain ⟨rfl, rfl⟩ := hr
    simp [peekTwo, getElem?_of_drop hd, getElem?_of_drop (drop_succ_of_drop hd)]

/-- Whether `bs` stands at `pos` is whether the bytes from there start with `bs`. -/
theorem standsAt_iff (input : ByteArray) (bs : List UInt8) :
    ∀ pos, standsAt input pos bs = true ↔ bs <+: input.toList.drop pos := by
  induction bs with
  | nil => simp [standsAt]
  | cons c bs ih =>
    intro pos
    cases hd : input.toList.drop pos with
    | nil => simp [standsAt, getElem?_of_drop_nil hd]
    | cons x tl =>
      rw [standsAt, getElem?_of_drop hd, Bool.and_eq_true, ih, drop_succ_of_drop hd,
        List.cons_prefix_cons]
      simp [eq_comm]

/-- The rest of the bytes, when there are some. -/
theorem reads_rest {l : List UInt8} (hl : l ≠ []) : Reads rest l (· = []) l := by
  rintro input pos _ hd' rfl
  have hd : input.toList.drop pos = l := by rw [hd', List.append_nil]
  have hlen := congrArg List.length hd
  have hpos : pos < input.size := by
    by_contra h
    rw [List.drop_eq_nil_of_le (by simpa using h)] at hd
    exact hl hd.symm
  simp only [List.length_drop, ByteArray.length_toList] at hlen
  have hsize : input.size = pos + l.length := by omega
  simp only [Parser.rest, hsize, toList_extract_of_drop hd']

theorem reads_literal (s : String) : Reads (literal s) s.toUTF8.toList (fun _ => True) () := by
  intro input pos rest hd _
  have hs : standsAt input pos s.toUTF8.toList = true := by
    rw [standsAt_iff, hd]
    exact List.prefix_append _ _
  simp only [literal, hs, if_true]

theorem refuses_literal (s : String) :
    Refuses (literal s) fun u => ¬ s.toUTF8.toList <+: u := by
  intro input pos hu
  have hs : standsAt input pos s.toUTF8.toList = false := by
    rw [← Bool.not_eq_true, standsAt_iff]
    exact hu
  exact ⟨⟨pos, [], none, false⟩, by simp only [literal, hs, Bool.false_eq_true, if_false], rfl⟩

end Single

/-! ## Runs of bytes -/

section Runs

variable {f : UInt8 → Bool} {bs : List UInt8}

/-- `spanWhile` stops after the bytes that satisfy `f`: at the first that does not, or when its
limit is used up. -/
theorem spanWhile_eq (hbs : ∀ c ∈ bs, f c = true) :
    ∀ (input : ByteArray) (pos limit : Nat) (rest : List UInt8),
      input.toList.drop pos = bs ++ rest → bs.length ≤ limit →
      (bs.length = limit ∨ ∀ c ∈ rest.head?, f c = false) →
      spanWhile f input limit pos = pos + bs.length := by
  induction bs with
  | nil =>
    intro input pos limit rest hd _ hstop
    rw [List.nil_append] at hd
    cases limit with
    | zero => rfl
    | succ limit =>
      have hstop := hstop.resolve_left (by simp)
      cases rest with
      | nil => simp [spanWhile, getElem?_of_drop_nil hd]
      | cons c tl => simp [spanWhile, getElem?_of_drop hd, hstop c rfl]
  | cons c bs ih =>
    intro input pos limit rest hd hlen hstop
    obtain ⟨limit, rfl⟩ : ∃ k, limit = k + 1 := ⟨limit - 1, by simp at hlen; omega⟩
    rw [List.cons_append] at hd
    have hc := hbs c List.mem_cons_self
    rw [spanWhile, getElem?_of_drop hd]
    simp only [hc, if_true]
    rw [ih (fun x hx => hbs x (List.mem_cons_of_mem _ hx)) input (pos + 1) limit rest
      (drop_succ_of_drop hd) (by simp at hlen; omega) (by simpa using hstop)]
    simp only [List.length_cons]
    omega

/-- `takeWhile` reads a run of bytes that satisfy `f`, up to a byte that does not or up to its
bound. -/
theorem reads_takeWhile {low high : Nat} (hbs : ∀ c ∈ bs, f c = true) (hlow : low ≤ bs.length)
    (hhigh : bs.length ≤ high) :
    Reads (takeWhile low high f) bs (fun rest => bs.length = high ∨ ∀ c ∈ rest.head?, f c = false)
      bs := by
  intro input pos rest hd hr
  have hroom := length_le_of_drop hd
  have hstop : spanWhile f input (min high (input.size - pos)) pos = pos + bs.length := by
    refine spanWhile_eq hbs input pos _ rest hd (by omega) ?_
    rcases hr with h | h
    · exact .inl (by omega)
    · exact .inr h
  simp only [takeWhile, hstop, Nat.add_sub_cancel_left, show ¬bs.length < low by omega, if_false,
    toList_extract_of_drop hd]

/-- `takeWhile` refuses a run shorter than it must read. -/
theorem refuses_takeWhile_short {low high : Nat} :
    Refuses (takeWhile low high f) fun u => ∃ bs r, u = bs ++ r ∧ (∀ c ∈ bs, f c = true) ∧
      (∀ c ∈ r.head?, f c = false) ∧ bs.length < low ∧ bs.length ≤ high := by
  rintro input pos ⟨bs, r, hd, hbs, hr, hlow, hhigh⟩
  have hroom := length_le_of_drop hd
  have hstop : spanWhile f input (min high (input.size - pos)) pos = pos + bs.length :=
    spanWhile_eq hbs input pos _ r hd (by omega) (.inr hr)
  exact ⟨⟨pos, [], none, false⟩, by simp [takeWhile, hstop, hlow], rfl⟩

theorem refuses_takeWhile {high : Nat} :
    Refuses (takeWhile 1 high f) fun u => ∀ c ∈ u.head?, f c = false :=
  refuses_takeWhile_short.mono fun u hu =>
    ⟨[], u, rfl, nofun, hu, Nat.one_pos, Nat.zero_le _⟩

end Runs

/-! ## Repetition -/

/-- `p` read again and again: the texts of the items, none empty, one after the other, and then
a refusal of `p` wherever `follow` allows. -/
inductive ReadsMany (p : Parser α) (follow : List UInt8 → Prop) : List UInt8 → List α → Prop
  | nil : Refuses p follow → ReadsMany p follow [] []
  | cons {l l' : List UInt8} {a : α} {as : List α} : l ≠ [] →
      Reads p l (fun r => ∃ r', r = l' ++ r' ∧ follow r') a → ReadsMany p follow l' as →
      ReadsMany p follow (l ++ l') (a :: as)

theorem ReadsMany.go_eq {p : Parser α} {follow : List UInt8 → Prop} {l : List UInt8}
    {as : List α} (h : ReadsMany p follow l as) (atLeastOne : Bool) :
    ∀ (input : ByteArray) (fuel pos : Nat) (acc : List α) (rest : List UInt8),
      input.toList.drop pos = l ++ rest → follow rest → l.length < fuel →
      (atLeastOne = true → acc = [] → as ≠ []) →
      many.go p atLeastOne input fuel pos acc = .ok (acc.reverse ++ as, pos + l.length) := by
  induction h with
  | nil hp =>
    intro input fuel pos acc rest hd hr hfuel hne
    obtain ⟨fuel, rfl⟩ : ∃ k, fuel = k + 1 := ⟨fuel - 1, by omega⟩
    obtain ⟨e, he, hc⟩ := hp input pos (by rwa [hd, List.nil_append])
    have hstop : (e.committed || (atLeastOne && acc.isEmpty)) = false := by
      cases atLeastOne <;> cases acc <;> simp_all
    rw [many.go, he]
    simp [hstop]
  | @cons l l' a as hl hp _ ih =>
    intro input fuel pos acc rest hd hr hfuel _
    obtain ⟨fuel, rfl⟩ : ∃ k, fuel = k + 1 := ⟨fuel - 1, by omega⟩
    rw [List.append_assoc] at hd
    have hlen : 0 < l.length := List.length_pos_iff.2 hl
    rw [many.go, hp input pos _ hd ⟨rest, rfl, hr⟩]
    simp only [show ¬pos + l.length ≤ pos by omega, if_false]
    rw [ih input fuel (pos + l.length) (a :: acc) rest (drop_add_of_drop hd) hr
      (by simp at hfuel; omega) (by simp)]
    simp [Nat.add_assoc]

/-- **Repetition.** `many p` reads the texts that `p` reads one after the other, as long as it
refuses after them, and at least one if it must. -/
theorem reads_many {p : Parser α} {follow : List UInt8 → Prop} {l : List UInt8} {as : List α}
    (h : ReadsMany p follow l as) {atLeastOne : Bool} (hne : atLeastOne = true → as ≠ []) :
    Reads (many p atLeastOne) l follow as := by
  intro input pos rest hd hr
  have hroom := length_le_of_drop hd
  have := h.go_eq atLeastOne input (input.size - pos + 1) pos [] rest hd hr (by omega)
    (fun h _ => hne h)
  simpa [many] using this

/-- A repetition that reads some bytes reads some values. -/
theorem ReadsMany.ne_nil {p : Parser α} {follow : List UInt8 → Prop} {l : List UInt8}
    {as : List α} (h : ReadsMany p follow l as) (hl : l ≠ []) : as ≠ [] := by
  cases h with
  | nil => exact absurd rfl hl
  | cons => exact List.cons_ne_nil _ _

/-- A repetition that must read once refuses where its parser refuses. -/
theorem refuses_many {p : Parser α} {P : List UInt8 → Prop} (h : Refuses p P) :
    Refuses (many p true) P := by
  intro input pos hu
  obtain ⟨e, he, hc⟩ := h input pos hu
  refine ⟨e, ?_, hc⟩
  simp only [many]
  rw [many.go, he]
  simp [hc]

/-- A parser that reads each byte of a class on its own, and refuses where `follow` allows, reads
a run of such bytes one at a time. -/
theorem readsMany_of_bytes {p : Parser Unit} {f : UInt8 → Prop} {follow : List UInt8 → Prop}
    (hb : ∀ b, f b → Reads p [b] (fun _ => True) ()) (hend : Refuses p follow) :
    ∀ bs : List UInt8, (∀ b ∈ bs, f b) → ReadsMany p follow bs (List.replicate bs.length ())
  | [], _ => ReadsMany.nil hend
  | b :: bs, h => ReadsMany.cons (List.cons_ne_nil _ _)
      ((hb b (h b List.mem_cons_self)).mono fun _ _ => trivial)
      (readsMany_of_bytes hb hend bs fun x hx => h x (List.mem_cons_of_mem b hx))

end WorkLedger.Toml.Parser

/-! ## Blanks and line ends -/

namespace WorkLedger.Toml.Grammar

open WorkLedger.Toml.Parser

theorem reads_newline : Reads newline [10] (fun _ => True) () := by
  intro input pos rest hd _
  rw [newline, bind_apply, reads_anyByte 10 input pos rest hd trivial]
  rfl

/-- A byte that starts no line end is refused once read. -/
theorem refuses_newline : Refuses newline fun u => ∃ x r, u = x :: r ∧ x ≠ 10 ∧ x ≠ 13 := by
  rintro input pos ⟨x, r, hd, h10, h13⟩
  refine ⟨⟨pos + 1, [], none, false⟩, ?_, rfl⟩
  rw [newline, bind_apply, reads_anyByte x input pos r (by rw [hd]; rfl) trivial]
  dsimp only
  split
  · exact absurd rfl h10
  · exact absurd rfl h13
  · rfl

theorem reads_blanks {ws : List UInt8} (hws : ∀ b ∈ ws, isBlank b = true)
    (hlen : ws.length ≤ unbounded) :
    Reads blanks ws (fun r => ∀ b ∈ r.head?, isBlank b = false) () := by
  intro input pos rest hd hr
  rw [blanks, bind_apply, reads_takeWhile hws (Nat.zero_le _) hlen input pos rest hd (.inr hr)]
  rfl

/-- No blanks are read before a byte that is no blank. -/
theorem reads_no_blanks : Reads blanks [] (fun r => ∀ b ∈ r.head?, isBlank b = false) () :=
  reads_blanks nofun (Nat.zero_le _)

end WorkLedger.Toml.Grammar
