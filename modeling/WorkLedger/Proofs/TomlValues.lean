import WorkLedger.Proofs.TomlStringForms

/-!
# Integers and strings read back as values

The text a writer gives an integer, `toString i`, reads back as that integer wherever a value
may stand (`Grammar.reads_value_integer`), as long as it is within the 64 bits TOML allows, and
the text `stringText s` of a string reads back as that string (`Grammar.reads_value_string`).

An integer's text is a run of digits, perhaps after a minus, and before the line end it is
taken for neither of the other kinds of value that start with a digit: it is no date or time,
since no hyphen follows four digits and no colon two (`Grammar.refuses_dateTime`), and no float,
since it has no fraction or exponent and is no `inf` or `nan` (`Grammar.refuses_float`). The
digits themselves read back through `Nat.ofDigitChars` (`Toml.digitValue_toString`).
-/

namespace WorkLedger.Toml

open WorkLedger.Toml.Parser WorkLedger.Toml.Grammar

/-! ## Decimal digits -/

/-- One byte of `digitValue`. -/
def digitStep (base acc : Nat) (b : UInt8) : Nat :=
  if b = ascii '_' then acc
  else acc * base + (if isDigit b then b.toNat - 48 else if b ≤ ascii 'F' then b.toNat - 55
    else b.toNat - 87)

theorem digitValue_eq (base : Nat) (bytes : List UInt8) :
    digitValue base bytes = bytes.foldl (digitStep base) 0 := rfl

/-- A decimal digit is one byte, of the same code. -/
theorem utf8EncodeChar_digit {c : Char} (hc : c.isDigit = true) :
    String.utf8EncodeChar c = [c.toNat.toUInt8] := by
  have hlt : c.toNat ≤ 57 := by
    simp only [Char.isDigit, Bool.and_eq_true, decide_eq_true_eq] at hc
    exact hc.2
  rw [String.utf8EncodeChar_eq_singleton (Char.utf8Size_eq_one_iff.2 (by
    rw [UInt32.le_iff_toNat_le]; exact Nat.le_trans hlt (by decide)))]
  rfl

theorem char_isDigit_iff {c : Char} : c.isDigit = true ↔ 48 ≤ c.toNat ∧ c.toNat ≤ 57 := by
  simp [Char.isDigit, UInt32.le_iff_toNat_le]

theorem toNat_toUInt8_digit {c : Char} (hc : c.isDigit = true) : c.toNat.toUInt8.toNat = c.toNat :=
  Text.Utf8.toNat_ofNat_of_lt (by rw [char_isDigit_iff] at hc; omega)

theorem isDigit_toUInt8 {c : Char} (hc : c.isDigit = true) : isDigit c.toNat.toUInt8 = true := by
  have h := toNat_toUInt8_digit hc
  rw [char_isDigit_iff] at hc
  simp only [isDigit, Bool.and_eq_true, decide_eq_true_eq, UInt8.le_iff_toNat_le, h]
  exact ⟨hc.1, hc.2⟩

/-- Decimal digits as bytes accumulate to the number they write, as characters do. -/
theorem foldl_digitStep (cs : List Char) (hcs : ∀ c ∈ cs, c.isDigit = true) (acc : Nat) :
    (cs.flatMap String.utf8EncodeChar).foldl (digitStep 10) acc = Nat.ofDigitChars 10 cs acc := by
  induction cs generalizing acc with
  | nil => rfl
  | cons c cs ih =>
    have hc := hcs c List.mem_cons_self
    rw [List.flatMap_cons, utf8EncodeChar_digit hc, List.singleton_append, List.foldl_cons,
      Nat.ofDigitChars_cons, ← ih (fun x hx => hcs x (List.mem_cons_of_mem c hx))]
    have hd := isDigit_toUInt8 hc
    have hne : c.toNat.toUInt8 ≠ ascii '_' := fun h => by rw [h] at hd; revert hd; decide
    simp only [digitStep, if_neg hne, hd, if_true, toNat_toUInt8_digit hc]
    congr 1
    rw [Nat.mul_comm]
    rfl

theorem toString_bytes (n : Nat) :
    (toString n).toUTF8.toList = (Nat.toDigits 10 n).flatMap String.utf8EncodeChar := by
  rw [Text.Utf8.toList_toUTF8, Nat.toString_eq_repr, Nat.toList_repr]

theorem isDigit_of_mem_toString {n : Nat} : ∀ b ∈ (toString n).toUTF8.toList, isDigit b = true := by
  intro b hb
  rw [toString_bytes] at hb
  obtain ⟨c, hc, hb⟩ := List.mem_flatMap.1 hb
  have hd := Nat.isDigit_of_mem_toDigits (by decide) (by decide) hc
  rw [utf8EncodeChar_digit hd, List.mem_singleton] at hb
  exact hb ▸ isDigit_toUInt8 hd

/-- **Decimal digits read back.** -/
theorem digitValue_toString (n : Nat) : digitValue 10 (toString n).toUTF8.toList = n := by
  rw [digitValue_eq, toString_bytes,
    foldl_digitStep _ (fun c hc => Nat.isDigit_of_mem_toDigits (by decide) (by decide) hc),
    Nat.ofDigitChars_ten_toDigits]

/-- A positive number is written from a digit other than zero. -/
theorem toDigits_head (n : Nat) (hn : 0 < n) :
    ∃ d rest, Nat.toDigits 10 n = d.digitChar :: rest ∧ 1 ≤ d ∧ d < 10 := by
  induction n using Nat.strong_induction_on with
  | _ n ih =>
    by_cases h10 : n < 10
    · exact ⟨n, [], Nat.toDigits_of_lt_base h10, hn, h10⟩
    · obtain ⟨d, rest, hd, h1, h2⟩ := ih (n / 10) (by omega) (by omega)
      refine ⟨d, rest ++ [(n % 10).digitChar], ?_, h1, h2⟩
      rw [Nat.toDigits_of_base_le (by decide) (by omega), hd, List.cons_append]

/-- The first byte of a positive number is a digit from one to nine. -/
theorem toString_head {n : Nat} (hn : 0 < n) :
    ∃ d t, (toString n).toUTF8.toList = d :: t ∧ 49 ≤ d.toNat ∧ d.toNat ≤ 57 := by
  obtain ⟨d, rest, hd, h1, h2⟩ := toDigits_head n hn
  have hdig : d.digitChar.isDigit = true :=
    Nat.isDigit_of_mem_toDigits (b := 10) (n := n) (by decide) (by decide) (by rw [hd]; exact List.mem_cons_self)
  have hval : d.digitChar.toNat = 48 + d := by
    have := Nat.toNat_digitChar_sub_48_of_lt_ten h2
    rw [char_isDigit_iff] at hdig
    omega
  refine ⟨d.digitChar.toNat.toUInt8, rest.flatMap String.utf8EncodeChar, ?_, ?_, ?_⟩
  · rw [toString_bytes, hd, List.flatMap_cons, utf8EncodeChar_digit hdig, List.singleton_append]
  · rw [toNat_toUInt8_digit hdig]; omega
  · rw [toNat_toUInt8_digit hdig]; omega

end WorkLedger.Toml

namespace WorkLedger.Toml.Grammar

open WorkLedger.Toml.Parser

/-! ## Integers -/

theorem isDigit_iff (b : UInt8) : isDigit b = true ↔ 48 ≤ b.toNat ∧ b.toNat ≤ 57 := by
  simp only [isDigit, Bool.and_eq_true, decide_eq_true_eq, UInt8.le_iff_toNat_le]
  rfl

theorem reads_digit {b : UInt8} (hb : isDigit b = true) : Reads digit [b] (fun _ => True) () :=
  Reads.skip (reads_byteIf hb)

theorem refuses_digit : Refuses digit fun u => ∀ c ∈ u.head?, isDigit c = false :=
  Refuses.bind (refuses_byteIf isDigit) _

/-- No sign is read before a digit. -/
theorem reads_no_sign : Reads sign [] (fun r => ∃ x r', r = x :: r' ∧ isDigit x = true) none := by
  refine Refuses.optional ((refuses_byteIf _).mono fun u ⟨x, r', hu, hx⟩ c hc => ?_)
  rw [hu, List.head?_cons, Option.mem_def, Option.some.injEq] at hc
  subst hc
  rw [isDigit_iff] at hx
  simp only [Bool.or_eq_false_iff, decide_eq_false_iff_not, ← UInt8.toNat_inj]
  exact ⟨fun h => by rw [h] at hx; revert hx; decide, fun h => by rw [h] at hx; revert hx; decide⟩

/-- The digits after the first of a decimal integer, up to the line end. -/
theorem readsMany_moreDigits {ds : List UInt8} (hds : ∀ b ∈ ds, isDigit b = true) :
    ReadsMany (orElse digit (do byte (ascii '_'); context (.description "digit") (commit digit)))
      (fun r => r.head? = some 10) ds (List.replicate ds.length ()) := by
  refine readsMany_of_bytes (fun b hb => Reads.orElse_left (reads_digit hb) _)
    (Refuses.orElse (refuses_digit.mono fun u hu c hc => ?_)
      (Refuses.bind ((refuses_byte _).mono fun u hu => ?_) _)) ds hds
  · rw [hu, Option.mem_def, Option.some.injEq] at hc
    subst hc
    decide
  · rw [hu]
    decide

theorem toString_zero_bytes : (toString (0 : Nat)).toUTF8.toList = [48] := by
  rw [toString_bytes]
  decide

/-- The digits of a number, with no sign before them, before a line end. -/
theorem reads_unsignedDigits (n : Nat) :
    Reads (orElse (do let _ ← byteIf fun b => ascii '1' ≤ b && b ≤ ascii '9'
                      let _ ← many (orElse digit (do byte (ascii '_')
                                                     context (.description "digit") (commit digit)))
                        false)
      digit) (toString n).toUTF8.toList (fun r => r.head? = some 10) () := by
  rcases Nat.eq_zero_or_pos n with rfl | hn
  · rw [toString_zero_bytes]
    refine Reads.orElse_right (Refuses.bind (refuses_byteIf _) _) ((reads_digit (by decide)).mono
      fun _ _ => trivial) fun rest _ c hc => ?_
    simp only [List.cons_append, List.nil_append, List.head?_cons, Option.mem_def,
      Option.some.injEq] at hc
    subst hc
    decide
  · obtain ⟨d, t, hdt, h1, h2⟩ := toString_head hn
    have ht : ∀ b ∈ t, isDigit b = true := fun b hb =>
      isDigit_of_mem_toString b (by rw [hdt]; exact List.mem_cons_of_mem d hb)
    have hd : (ascii '1' ≤ d && d ≤ ascii '9') = true := by
      simp only [Bool.and_eq_true, decide_eq_true_eq, UInt8.le_iff_toNat_le]
      exact ⟨h1, h2⟩
    have h : Reads (do let _ ← byteIf fun b => ascii '1' ≤ b && b ≤ ascii '9'
                       let _ ← many (orElse digit (do byte (ascii '_')
                                                      context (.description "digit") (commit digit)))
                         false)
        ([d] ++ t) (fun r => r.head? = some 10) () :=
      Reads.bind (reads_byteIf hd) (Reads.skip (reads_many (readsMany_moreDigits ht) nofun))
        fun _ _ => trivial
    rw [hdt]
    exact Reads.orElse_left h _

theorem toString_negSucc_bytes (m : Nat) :
    (toString (Int.negSucc m)).toUTF8.toList = 45 :: (toString (m + 1)).toUTF8.toList := by
  show ("-" ++ Nat.repr (m + 1)).toUTF8.toList = _
  simp only [Text.Utf8.toList_toUTF8, String.toList_append, List.flatMap_append]
  rfl

/-- The text of a number starts with a digit. -/
theorem toString_bytes_head (n : Nat) :
    ∃ x t, (toString n).toUTF8.toList = x :: t ∧ isDigit x = true := by
  have hne : (toString n).toUTF8.toList ≠ [] := by
    rw [toString_bytes]
    exact length_flatMap_pos Nat.toDigits_ne_nil
  obtain ⟨x, t, h⟩ := List.exists_cons_of_ne_nil hne
  exact ⟨x, t, h, isDigit_of_mem_toString x (by rw [h]; exact List.mem_cons_self)⟩

/-- **Decimal integers.** The text of an integer, before a line end, is a decimal integer. -/
theorem reads_decimalInteger (i : Int) :
    Reads decimalInteger (toString i).toUTF8.toList (fun r => r.head? = some 10) () := by
  cases i with
  | ofNat n =>
    have h : Reads decimalInteger ([] ++ (toString n).toUTF8.toList) (fun r => r.head? = some 10)
        () :=
      Reads.context _ (Reads.bind reads_no_sign (reads_unsignedDigits n) fun rest _ => by
        obtain ⟨x, t, hxt, hx⟩ := toString_bytes_head n
        exact ⟨x, t ++ rest, by rw [hxt]; rfl, hx⟩)
    exact h
  | negSucc m =>
    have h : Reads decimalInteger ([45] ++ (toString (m + 1)).toUTF8.toList)
        (fun r => r.head? = some 10) () :=
      Reads.context _ (Reads.bind (reads_byteIf (by decide)).optional (reads_unsignedDigits (m + 1))
        fun _ _ => trivial)
    rw [toString_negSucc_bytes]
    exact h

theorem largestInteger_eq : largestInteger = 2 ^ 63 - 1 := rfl

theorem smallestInteger_eq : smallestInteger = -2 ^ 63 := rfl

/-- The text of an integer in range reads back as that integer. -/
theorem integerOfText_toString {i : Int} (hlo : smallestInteger ≤ i) (hhi : i ≤ largestInteger) :
    integerOfText (toString i).toUTF8.toList = .ok i := by
  cases i with
  | ofNat n =>
    obtain ⟨x, t, hxt, hx⟩ := toString_bytes_head n
    have hneg : ¬((toString n).toUTF8.toList.head? = some (ascii '-')) := by
      rw [hxt, List.head?_cons, Option.some.injEq]
      rintro rfl
      revert hx
      decide
    have hfilter : (toString n).toUTF8.toList.filter isDigit = (toString n).toUTF8.toList :=
      List.filter_eq_self.2 isDigit_of_mem_toString
    have hgt : ¬((n : Int) > largestInteger) := by simpa using hhi
    have hlt : ¬((n : Int) < smallestInteger) := by simpa using hlo
    rw [show toString (Int.ofNat n) = toString n from rfl]
    simp only [integerOfText, hfilter, digitValue_toString, hneg, if_false, hgt, hlt]
    rfl
  | negSucc m =>
    have hfilter : (45 :: (toString (m + 1)).toUTF8.toList).filter isDigit =
        (toString (m + 1)).toUTF8.toList := by
      rw [List.filter_cons, if_neg (by decide), List.filter_eq_self.2 isDigit_of_mem_toString]
    have hm : Int.negSucc m = -((m + 1 : Nat) : Int) := by rw [Int.negSucc_eq]; push_cast; rfl
    have hgt : ¬(-((m + 1 : Nat) : Int) > largestInteger) := by rw [← hm]; simpa using hhi
    have hlt : ¬(-((m + 1 : Nat) : Int) < smallestInteger) := by rw [← hm]; simpa using hlo
    rw [toString_negSucc_bytes]
    have hminus : ascii '-' = 45 := rfl
    simp only [integerOfText, hfilter, digitValue_toString, List.head?_cons, hminus, if_true, hgt,
      hlt, if_false]
    rw [hm]

/-- The first byte of an integer's text is a digit or a minus, and a zero only alone. -/
theorem toString_int_head (i : Int) (rest : List UInt8) (hr : rest.head? = some 10) :
    ∃ x y u, (toString i).toUTF8.toList ++ rest = x :: y :: u ∧
      (isDigit x = true ∨ x = 45) ∧ (x = 48 → y = 10) := by
  cases i with
  | ofNat n =>
    show ∃ x y u, (toString n).toUTF8.toList ++ rest = x :: y :: u ∧ _
    rcases Nat.eq_zero_or_pos n with rfl | hn
    · obtain ⟨y, u, rfl⟩ : ∃ y u, rest = y :: u := by
        cases rest with
        | nil => simp at hr
        | cons y u => exact ⟨y, u, rfl⟩
      simp only [List.head?_cons, Option.some.injEq] at hr
      rw [toString_zero_bytes]
      exact ⟨48, y, u, rfl, .inl (by decide), fun _ => hr⟩
    · obtain ⟨d, t, hdt, h1, h2⟩ := toString_head hn
      obtain ⟨y, u, hyu⟩ : ∃ y u, t ++ rest = y :: u := by
        cases t with
        | nil =>
          cases rest with
          | nil => simp at hr
          | cons y u => exact ⟨y, u, rfl⟩
        | cons y u => exact ⟨y, u ++ rest, rfl⟩
      refine ⟨d, y, u, by rw [hdt, List.cons_append, hyu], .inl ?_, fun h => ?_⟩
      · rw [isDigit_iff]; omega
      · exact absurd h1 (by rw [h]; decide)
  | negSucc m =>
    obtain ⟨x, t, hxt, hx⟩ := toString_bytes_head (m + 1)
    exact ⟨45, x, t ++ rest, by rw [toString_negSucc_bytes, hxt]; rfl, .inr rfl,
      fun h => absurd h (by decide)⟩

/-- **Integers.** The text of an integer in range, before a line end, reads back as it. -/
theorem reads_integer {i : Int} (hlo : smallestInteger ≤ i) (hhi : i ≤ largestInteger) :
    Reads integer (toString i).toUTF8.toList (fun r => r.head? = some 10) i := by
  have hne : (toString i).toUTF8.toList ≠ [] := by
    obtain ⟨x, y, u, h, -⟩ := toString_int_head i [10] rfl
    intro h0
    rw [h0] at h
    simp at h
  have hdec : Reads (andThen decimalInteger (commit (tryMap rest integerOfText)))
      (toString i).toUTF8.toList (fun r => r.head? = some 10) i :=
    Reads.andThen (reads_decimalInteger i)
      (Reads.commit (Reads.tryMap (reads_rest hne) (integerOfText_toString hlo hhi)))
  intro input pos rest hd hr
  obtain ⟨x, y, u, hxy, hx, h48⟩ := toString_int_head i rest hr
  rw [integer, bind_apply, reads_peekTwo (c := x) (d := y) input pos _ (by rw [List.nil_append, hd, hxy]) (by simp)]
  dsimp only
  -- no prefix of another base: a zero stands alone
  have hbase : ∀ e, some (x, y) = some (48, e) → e = 10 := fun e h => by
    obtain ⟨rfl, rfl⟩ := Prod.mk.inj (Option.some.inj h)
    exact h48 rfl
  revert hbase
  generalize some (x, y) = t
  intro hbase
  split
  · exact absurd (hbase _ rfl) (by decide)
  · exact absurd (hbase _ rfl) (by decide)
  · exact absurd (hbase _ rfl) (by decide)
  · rw [List.length_nil, Nat.add_zero]
    exact hdec input pos rest hd hr

/-! ## Numbers that are no dates, times or floats -/

/-- After `k` of a run of digits comes a byte other than `c`: a digit, or the byte after the run
when that is no `c`. -/
theorem next_after_digits {ds : List UInt8} {x c : UInt8} {k : Nat} (r : List UInt8)
    (hds : ∀ b ∈ ds, isDigit b = true) (hc : isDigit c = false) (hx : ds.length = k → x ≠ c)
    (hk : k ≤ ds.length) : ∃ y r', ds.drop k ++ x :: r = y :: r' ∧ y ≠ c := by
  cases hdrop : ds.drop k with
  | nil => exact ⟨x, r, rfl, hx (by have := List.drop_eq_nil_iff.1 hdrop; omega)⟩
  | cons y t =>
    have hy : isDigit y = true :=
      hds y (List.mem_of_mem_drop (by rw [hdrop]; exact List.mem_cons_self))
    exact ⟨y, t ++ x :: r, rfl, fun h => by rw [h, hc] at hy; exact Bool.false_ne_true hy⟩

/-- The first `k` digits of a run, as `takeWhile k k isDigit` reads them. -/
theorem reads_firstDigits {ds : List UInt8} {k : Nat} (hds : ∀ b ∈ ds, isDigit b = true)
    (hk : k ≤ ds.length) :
    Reads (takeWhile k k isDigit) (ds.take k) (fun _ => True) (ds.take k) := by
  have hlen : (ds.take k).length = k := by simp; omega
  exact (reads_takeWhile (fun b hb => hds b (List.mem_of_mem_take hb)) hlen.ge hlen.le).mono
    fun _ _ => .inl hlen

/-- A run of at least `k` digits before a byte other than `c`: its first `k` digits are read,
and the byte after them is no `c`. -/
theorem firstDigits_then_not {ds : List UInt8} {x c : UInt8} {k : Nat} {r : List UInt8}
    {input : ByteArray} {pos : Nat} (hd : input.toList.drop pos = ds ++ x :: r)
    (hds : ∀ b ∈ ds, isDigit b = true) (hc : isDigit c = false) (hx : ds.length = k → x ≠ c)
    (hk : k ≤ ds.length) :
    takeWhile k k isDigit input pos = .ok (ds.take k, pos + k) ∧
      ∃ e, byte c input (pos + k) = .error e ∧ e.committed = false := by
  obtain ⟨y, r', hy, hyc⟩ := next_after_digits r hds hc hx hk
  have hd' : input.toList.drop pos = ds.take k ++ (y :: r') := by
    rw [hd, ← hy, ← List.append_assoc, List.take_append_drop]
  have hlen : (ds.take k).length = k := by simp; omega
  refine ⟨?_, refuses_byte c input (pos + k) ?_⟩
  · have h := reads_firstDigits hds hk input pos _ hd' trivial
    rwa [hlen] at h
  · rw [← hlen, drop_add_of_drop hd']
    show some y ≠ some c
    rw [ne_eq, Option.some.injEq]
    exact hyc

/-- A run of digits is no date: too short for a year, or not followed by a hyphen. -/
theorem refuses_fullDate : Refuses fullDate fun u => ∃ ds x r, u = ds ++ x :: r ∧
    (∀ b ∈ ds, isDigit b = true) ∧ isDigit x = false ∧ (ds.length = 4 → x ≠ 45) := by
  rintro input pos ⟨ds, x, r, hd, hds, hx, h45⟩
  by_cases hlen : ds.length < 4
  · obtain ⟨e, he, hc⟩ := (refuses_takeWhile_short : Refuses (takeWhile 4 4 isDigit) _) input pos
      ⟨ds, x :: r, hd, hds, by simpa using hx, hlen, by omega⟩
    refine ⟨e, ?_, hc⟩
    simp only [fullDate, digitsBetween, bind_apply, he]
  · -- four digits, then a byte that is no hyphen
    obtain ⟨h4, e, he, hc⟩ :=
      firstDigits_then_not (c := ascii '-') hd hds (by decide) h45 (by omega)
    refine ⟨e, ?_, hc⟩
    simp only [fullDate, digitsBetween, bind_apply, h4, pure_apply, he]

/-- A run of digits is no time: too short for an hour, two digits that are no hour, or an hour
not followed by a colon. -/
theorem refuses_partialTime : Refuses partialTime fun u => ∃ ds x r, u = ds ++ x :: r ∧
    (∀ b ∈ ds, isDigit b = true) ∧ isDigit x = false ∧ (ds.length = 2 → x ≠ 58) := by
  rintro input pos ⟨ds, x, r, hd, hds, hx, h58⟩
  by_cases hlen : ds.length < 2
  · obtain ⟨e, he, hc⟩ := (refuses_takeWhile_short : Refuses (takeWhile 2 2 isDigit) _) input pos
      ⟨ds, x :: r, hd, hds, by simpa using hx, hlen, by omega⟩
    refine ⟨e, ?_, hc⟩
    simp only [partialTime, twoDigits, digitsBetween, Parser.tryMap, bind_apply, he]
  · obtain ⟨h2, e, he, hc⟩ :=
      firstDigits_then_not (c := ascii ':') hd hds (by decide) h58 (by omega)
    by_cases hv : (decide (0 ≤ digitValue 10 (ds.take 2)) && decide (digitValue 10 (ds.take 2) ≤ 23))
        = true
    · -- an hour, then a byte that is no colon
      refine ⟨e, ?_, hc⟩
      simp only [partialTime, twoDigits, digitsBetween, Parser.tryMap, bind_apply, h2,
        pure_apply, hv, if_true, he]
    · -- two digits that are no hour
      refine ⟨⟨pos, [], some Problem.outOfRange.message, false⟩, ?_, rfl⟩
      simp only [partialTime, twoDigits, digitsBetween, Parser.tryMap, bind_apply, h2,
        pure_apply, hv]
      rfl

/-- **No date or time.** A run of digits, or a minus, followed by a byte that is no digit,
hyphen or colon, is no date or time. -/
theorem refuses_dateTime : Refuses dateTime fun u => ∃ ds x r, u = ds ++ x :: r ∧
    (∀ b ∈ ds, isDigit b = true) ∧ isDigit x = false ∧ (ds.length = 4 → x ≠ 45) ∧
      (ds.length = 2 → x ≠ 58) :=
  Refuses.bind (Refuses.recognize (Refuses.orElse
    (Refuses.context _ (Refuses.bind (refuses_fullDate.mono
      fun _ ⟨ds, x, r, hu, hds, hx, h45, _⟩ => ⟨ds, x, r, hu, hds, hx, h45⟩) _))
    (Refuses.context _ (refuses_partialTime.mono
      fun _ ⟨ds, x, r, hu, hds, hx, _, h58⟩ => ⟨ds, x, r, hu, hds, hx, h58⟩)))) _

/-- Neither `inf` nor `nan` starts with a digit. -/
theorem refuses_special : Refuses (orElse (do literal "inf"; pure ((1 : Float) / 0))
    (do literal "nan"; pure ((0 : Float) / 0))) fun u => ∃ x r, u = x :: r ∧ isDigit x = true := by
  have hinf : "inf".toUTF8.toList = [105, 110, 102] := by rw [Text.Utf8.toList_toUTF8]; decide
  have hnan : "nan".toUTF8.toList = [110, 97, 110] := by rw [Text.Utf8.toList_toUTF8]; decide
  refine Refuses.orElse (Refuses.bind ((refuses_literal _).mono ?_) _)
    (Refuses.bind ((refuses_literal _).mono ?_) _)
  · rintro u ⟨x, r, rfl, hx⟩ ⟨t, ht⟩
    rw [hinf] at ht
    obtain ⟨rfl, -⟩ := List.cons.inj ht
    revert hx
    decide
  · rintro u ⟨x, r, rfl, hx⟩ ⟨t, ht⟩
    rw [hnan] at ht
    obtain ⟨rfl, -⟩ := List.cons.inj ht
    revert hx
    decide

/-- A number, signed or not, is no `inf` or `nan`. -/
theorem refuses_specialFloat : Refuses specialFloat fun u =>
    (∃ x r, u = x :: r ∧ isDigit x = true) ∨ ∃ x r, u = 45 :: x :: r ∧ isDigit x = true := by
  refine Refuses.or ((Refuses.bind_of_reads reads_no_sign (Refuses.bind refuses_special _)).mono ?_)
    ((Refuses.bind_of_reads (reads_byteIf (by decide : (decide ((45 : UInt8) = ascii '+') ||
      decide ((45 : UInt8) = ascii '-')) = true)).optional (Refuses.bind refuses_special _)).mono ?_)
  · rintro u ⟨x, r, rfl, hx⟩
    exact ⟨x :: r, rfl, ⟨x, r, rfl, hx⟩, ⟨x, r, rfl, hx⟩⟩
  · rintro u ⟨x, r, rfl, hx⟩
    exact ⟨x :: r, rfl, trivial, ⟨x, r, rfl, hx⟩⟩

/-- **No float.** The text of an integer, before a line end, is no float: it has no fraction or
exponent, and is no `inf` or `nan`. -/
theorem refuses_float (i : Int) : Refuses float fun u =>
    ∃ r, u = (toString i).toUTF8.toList ++ r ∧ r.head? = some 10 := by
  have hmore : Refuses (orElse exponent (do fraction; let _ ← optional exponent))
      fun u => u.head? = some 10 :=
    Refuses.orElse (Refuses.bind ((refuses_byteIf _).mono fun u hu c hc => by
        rw [hu, Option.mem_def, Option.some.injEq] at hc
        subst hc
        decide) _)
      (Refuses.bind (Refuses.bind ((refuses_byte _).mono fun u hu => by rw [hu]; decide) _) _)
  refine Refuses.context _ (Refuses.orElse (Refuses.andThen
    ((Refuses.bind_of_reads (reads_decimalInteger i) hmore).mono
      fun u ⟨r, hu, hr⟩ => ⟨r, hu, hr, hr⟩) _) (refuses_specialFloat.mono ?_))
  rintro u ⟨r, rfl, hr⟩
  cases i with
  | ofNat n =>
    obtain ⟨x, t, hxt, hx⟩ := toString_bytes_head n
    exact .inl ⟨x, t ++ r, by rw [show toString (Int.ofNat n) = toString n from rfl, hxt]; rfl, hx⟩
  | negSucc m =>
    obtain ⟨x, t, hxt, hx⟩ := toString_bytes_head (m + 1)
    exact .inr ⟨x, t ++ r, by rw [toString_negSucc_bytes, hxt]; rfl, hx⟩

/-! ## Values -/

/-- The text of an integer is a run of digits, or a minus, before a byte that ends it. -/
theorem int_digits_then (i : Int) (rest : List UInt8) (hr : rest.head? = some 10) :
    ∃ ds x r, (toString i).toUTF8.toList ++ rest = ds ++ x :: r ∧ (∀ b ∈ ds, isDigit b = true) ∧
      isDigit x = false ∧ (ds.length = 4 → x ≠ 45) ∧ (ds.length = 2 → x ≠ 58) := by
  obtain ⟨r, rfl⟩ : ∃ r, rest = 10 :: r := by
    cases rest with
    | nil => simp at hr
    | cons y r =>
      simp only [List.head?_cons, Option.some.injEq] at hr
      exact ⟨r, by rw [hr]⟩
  cases i with
  | ofNat n =>
    exact ⟨(toString n).toUTF8.toList, 10, r, rfl, isDigit_of_mem_toString, by decide,
      fun _ => by decide, fun _ => by decide⟩
  | negSucc m =>
    refine ⟨[], 45, (toString (m + 1)).toUTF8.toList ++ 10 :: r, ?_, nofun, by decide, nofun, nofun⟩
    rw [toString_negSucc_bytes]
    rfl

/-- **Integer values.** The text of an integer in range, before a line end, is read as that
integer: it is no date, time or float. -/
theorem reads_valueWith_integer (array inline : Parser Value) {i : Int}
    (hlo : smallestInteger ≤ i) (hhi : i ≤ largestInteger) :
    Reads (valueWith array inline) (toString i).toUTF8.toList (fun r => r.head? = some 10)
      (.integer i) := by
  have hnum : Reads (firstOf [do let t ← dateTime; pure (Value.datetime t),
      do let f ← float; pure (Value.float f), do let i ← integer; pure (Value.integer i)])
      (toString i).toUTF8.toList (fun r => r.head? = some 10) (.integer i) :=
    Reads.orElse_right (Refuses.bind refuses_dateTime _)
      (Reads.orElse_right (Refuses.bind (refuses_float i) _)
        (Reads.map Value.integer (reads_integer hlo hhi)) fun rest hr => ⟨rest, rfl, hr⟩)
      fun rest hr => int_digits_then i rest hr
  intro input pos rest hd hr
  obtain ⟨x, y, u, hxy, hx, -⟩ := toString_int_head i rest hr
  rw [valueWith, bind_apply, reads_peek (some x) input pos _ (by rw [List.nil_append, hd])
    (by rw [hxy]; rfl)]
  dsimp only
  have hnum' : ∀ b, some x = some b → (b = ascii '+' || b = ascii '-' || isDigit b) = true := by
    rintro b hb
    obtain rfl := Option.some.inj hb
    rcases hx with hx | rfl
    · simp [hx]
    · decide
  have hsome : (some x).isSome = true := rfl
  revert hnum' hsome
  generalize some x = t
  intro hnum' hsome
  split
  · exact absurd (hnum' 34 rfl) (by decide)
  · exact absurd (hnum' 39 rfl) (by decide)
  · exact absurd (hnum' 91 rfl) (by decide)
  · exact absurd (hnum' 123 rfl) (by decide)
  · rw [if_pos (hnum' _ rfl)]
    exact hnum input _ rest (by rwa [List.length_nil, Nat.add_zero]) hr
  · exact absurd hsome (by decide)

/-- The text of a string opens with a quote or an apostrophe. -/
theorem stringText_head (s : String) :
    ∃ x t, (stringText s).toUTF8.toList = x :: t ∧ (x = 34 ∨ x = 39) := by
  have hquote : String.utf8EncodeChar '"' = [34] := by decide
  rw [Text.Utf8.toList_toUTF8]
  dsimp only [stringText]
  cases StringForm.of s.toList <;>
    simp [StringForm.delimiter, String.toList_append, hquote, utf8EncodeChar_apostrophe]

/-- **String values.** The text of a string, before a line end, is read as that string. -/
theorem reads_valueWith_string (array inline : Parser Value) {s : String}
    (hs : s.utf8ByteSize ≤ unbounded) :
    Reads (valueWith array inline) (stringText s).toUTF8.toList (fun r => r.head? = some 10)
      (.string s) := by
  have hread : Reads (do let s ← string; pure (Value.string s)) (stringText s).toUTF8.toList
      (fun r => r.head? = some 10) (.string s) :=
    Reads.map Value.string (string_reads_stringText s hs)
  intro input pos rest hd hr
  obtain ⟨x, t, hxt, hx⟩ := stringText_head s
  rw [valueWith, bind_apply, reads_peek (some x) input pos _ (by rw [List.nil_append, hd])
    (by rw [hxt]; rfl), List.length_nil, Nat.add_zero]
  rcases hx with rfl | rfl
  · exact hread input pos rest hd hr
  · exact hread input pos rest hd hr

/-- At every depth a value is read by `valueWith`, whatever it allows inside. -/
theorem value_eq_valueWith (d : Nat) : ∃ array inline, value d = valueWith array inline := by
  cases d with
  | zero => exact ⟨_, _, rfl⟩
  | succ d => exact ⟨_, _, rfl⟩

theorem reads_value_integer (d : Nat) {i : Int} (hlo : smallestInteger ≤ i)
    (hhi : i ≤ largestInteger) :
    Reads (value d) (toString i).toUTF8.toList (fun r => r.head? = some 10) (.integer i) := by
  obtain ⟨array, inline, h⟩ := value_eq_valueWith d
  rw [h]
  exact reads_valueWith_integer array inline hlo hhi

theorem reads_value_string (d : Nat) {s : String} (hs : s.utf8ByteSize ≤ unbounded) :
    Reads (value d) (stringText s).toUTF8.toList (fun r => r.head? = some 10) (.string s) := by
  obtain ⟨array, inline, h⟩ := value_eq_valueWith d
  rw [h]
  exact reads_valueWith_string array inline hs

end WorkLedger.Toml.Grammar
