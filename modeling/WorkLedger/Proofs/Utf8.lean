import WorkLedger.Text.Utf8
import WorkLedger.Proofs.Digest

/-!
# UTF-8: decoding undoes encoding

The decoder reads back the UTF-8 bytes of every string. The bytes of one character form one
well-formed sequence: the leading byte announces the sequence's length, the second byte lies in
the range that the leading byte allows (a character is no surrogate and at most U+10FFFF, and
its encoding is the shortest), the others are continuation bytes, and the bits they carry put
the code point back together (`step_utf8EncodeChar`). Decoding a string's bytes therefore gives
its characters one by one (`decode_toUTF8`).
-/

namespace WorkLedger.Text.Utf8

/-! ## Bytes as numbers -/

theorem toNat_and_0x3F (b : UInt8) : (b &&& 0x3F).toNat = b.toNat % 64 := by
  rw [UInt8.toNat_and, show (0x3F : UInt8).toNat = 2 ^ 6 - 1 from rfl,
    Nat.and_two_pow_sub_one_eq_mod]

theorem toNat_and_0x1F (b : UInt8) : (b &&& 0x1F).toNat = b.toNat % 32 := by
  rw [UInt8.toNat_and, show (0x1F : UInt8).toNat = 2 ^ 5 - 1 from rfl,
    Nat.and_two_pow_sub_one_eq_mod]

theorem toNat_and_0x0F (b : UInt8) : (b &&& 0x0F).toNat = b.toNat % 16 := by
  rw [UInt8.toNat_and, show (0x0F : UInt8).toNat = 2 ^ 4 - 1 from rfl,
    Nat.and_two_pow_sub_one_eq_mod]

theorem toNat_and_0x07 (b : UInt8) : (b &&& 0x07).toNat = b.toNat % 8 := by
  rw [UInt8.toNat_and, show (0x07 : UInt8).toNat = 2 ^ 3 - 1 from rfl,
    Nat.and_two_pow_sub_one_eq_mod]

theorem toNat_ofNat_of_lt {n : Nat} (h : n < 256) : (UInt8.ofNat n).toNat = n := by
  rw [UInt8.toNat_ofNat', Nat.mod_eq_of_lt h]

/-- A continuation byte written by the encoder: six bits of the code point under `0x80`. -/
theorem isTail_ofNat (n : Nat) : isTail (UInt8.ofNat (n % 64 + 0x80)) = true := by
  have h : (UInt8.ofNat (n % 64 + 0x80)).toNat = n % 64 + 128 :=
    toNat_ofNat_of_lt (by omega)
  simp only [isTail, Bool.and_eq_true, decide_eq_true_eq, UInt8.le_iff_toNat_le, h,
    UInt8.reduceToNat]
  omega

theorem tailBits_ofNat (n : Nat) : tailBits (UInt8.ofNat (n % 64 + 0x80)) = n % 64 := by
  rw [tailBits, toNat_and_0x3F, toNat_ofNat_of_lt (by omega)]
  omega

/-! ## One character -/

section Steps

variable {b s t u : UInt8}

/-- A lead byte of width one is a character alone. -/
theorem step_width_one (h : width b = 1) (rest : List UInt8) :
    step b rest = .ok (Char.ofNat b.toNat, 0) := by
  unfold step
  generalize width b = w at *
  subst h
  rfl

/-- A lead byte of width two and a tail byte are one character. -/
theorem step_width_two (h : width b = 2) (ht : isTail t = true) (rest : List UInt8) :
    step b (t :: rest) = .ok (Char.ofNat ((b &&& 0x1F).toNat * 64 + tailBits t), 1) := by
  unfold step
  generalize width b = w at *
  subst h
  exact if_pos ht

/-- A lead byte of width three, an allowed second byte and a tail byte are one character. -/
theorem step_width_three (h : width b = 3) (hs : secondAllowed b s = true) (ht : isTail t = true)
    (rest : List UInt8) :
    step b (s :: t :: rest) =
      .ok (Char.ofNat ((b &&& 0x0F).toNat * 4096 + tailBits s * 64 + tailBits t), 2) := by
  unfold step
  generalize width b = w at *
  subst h
  change (if !secondAllowed b s then Except.error (some 1) else if isTail t then _ else _) = _
  rw [hs, ht]
  rfl

/-- A lead byte of width four, an allowed second byte and two tail bytes are one character. -/
theorem step_width_four (h : width b = 4) (hs : secondAllowed b s = true) (ht : isTail t = true)
    (hu : isTail u = true) (rest : List UInt8) :
    step b (s :: t :: u :: rest) = .ok (Char.ofNat ((b &&& 0x07).toNat * 262144 +
      tailBits s * 4096 + tailBits t * 64 + tailBits u), 3) := by
  unfold step
  generalize width b = w at *
  subst h
  change (if !secondAllowed b s then Except.error (some 1)
    else if !isTail t then Except.error (some 2) else if isTail u then _ else _) = _
  rw [hs, ht, hu]
  rfl

end Steps

/-- The bytes of a character, followed by anything, are one well-formed sequence that stands for
that character. -/
theorem step_utf8EncodeChar (c : Char) (rest : List UInt8) :
    ∃ b tl, String.utf8EncodeChar c = b :: tl ∧ step b (tl ++ rest) = .ok (c, tl.length) := by
  have hv := c.valid
  have hc : c.val.toNat = c.toNat := rfl
  have hmax : c.toNat ≤ 0x10FFFF := by
    rcases hv with h | ⟨-, h⟩ <;> simp [hc] at h <;> omega
  have hsur : c.toNat < 0xD800 ∨ 0xDFFF < c.toNat := by
    rcases hv with h | ⟨h, -⟩ <;> simp [hc] at h <;> omega
  unfold String.utf8EncodeChar
  simp only [hc]
  by_cases h1 : c.toNat ≤ 0x7f
  · rw [if_pos h1]
    refine ⟨_, [], rfl, ?_⟩
    have hb := toNat_ofNat_of_lt (show c.toNat < 256 by omega)
    have hw : width (UInt8.ofNat c.toNat) = 1 := by
      simp only [width, UInt8.lt_iff_toNat_lt, hb, UInt8.reduceToNat]
      rw [if_pos (by omega)]
    rw [step_width_one hw, hb, Char.ofNat_toNat]
    rfl
  rw [if_neg h1]
  by_cases h2 : c.toNat ≤ 0x7ff
  · -- two bytes: five bits under `0xC0`, six under `0x80`
    rw [if_pos h2]
    refine ⟨_, [_], rfl, ?_⟩
    have hb := toNat_ofNat_of_lt (show c.toNat / 64 % 32 + 0xc0 < 256 by omega)
    have hw : width (UInt8.ofNat (c.toNat / 64 % 32 + 0xc0)) = 2 := by
      simp only [width, UInt8.lt_iff_toNat_lt, hb, UInt8.reduceToNat]
      rw [if_neg (by omega), if_neg (by omega), if_pos (by omega)]
    have hval : (UInt8.ofNat (c.toNat / 64 % 32 + 0xc0) &&& 0x1F).toNat * 64 +
        tailBits (UInt8.ofNat (c.toNat % 64 + 0x80)) = c.toNat := by
      rw [toNat_and_0x1F, hb, tailBits_ofNat]
      omega
    rw [List.singleton_append, step_width_two hw (isTail_ofNat _), hval, Char.ofNat_toNat]
    rfl
  rw [if_neg h2]
  by_cases h3 : c.toNat ≤ 0xffff
  · -- three bytes: the second excludes overlong forms and surrogates
    rw [if_pos h3]
    refine ⟨_, [_, _], rfl, ?_⟩
    have hb := toNat_ofNat_of_lt (show c.toNat / 4096 % 16 + 0xe0 < 256 by omega)
    have hs := toNat_ofNat_of_lt (show c.toNat / 64 % 64 + 0x80 < 256 by omega)
    have hw : width (UInt8.ofNat (c.toNat / 4096 % 16 + 0xe0)) = 3 := by
      simp only [width, UInt8.lt_iff_toNat_lt, hb, UInt8.reduceToNat]
      rw [if_neg (by omega), if_neg (by omega), if_neg (by omega), if_pos (by omega)]
    have hsecond : secondAllowed (UInt8.ofNat (c.toNat / 4096 % 16 + 0xe0))
        (UInt8.ofNat (c.toNat / 64 % 64 + 0x80)) = true := by
      simp only [secondAllowed, ← UInt8.toNat_inj, hb, hs, isTail, UInt8.le_iff_toNat_le,
        UInt8.reduceToNat]
      split_ifs <;> simp only [Bool.and_eq_true, decide_eq_true_eq] <;> omega
    have hval : (UInt8.ofNat (c.toNat / 4096 % 16 + 0xe0) &&& 0x0F).toNat * 4096 +
        tailBits (UInt8.ofNat (c.toNat / 64 % 64 + 0x80)) * 64 +
        tailBits (UInt8.ofNat (c.toNat % 64 + 0x80)) = c.toNat := by
      rw [toNat_and_0x0F, hb, tailBits_ofNat, tailBits_ofNat]
      omega
    rw [List.cons_append, List.cons_append, List.nil_append,
      step_width_three hw hsecond (isTail_ofNat _), hval, Char.ofNat_toNat]
    rfl
  · -- four bytes: the second excludes overlong forms and code points past U+10FFFF
    rw [if_neg h3]
    refine ⟨_, [_, _, _], rfl, ?_⟩
    have hb := toNat_ofNat_of_lt (show c.toNat / 262144 % 8 + 0xf0 < 256 by omega)
    have hs := toNat_ofNat_of_lt (show c.toNat / 4096 % 64 + 0x80 < 256 by omega)
    have hw : width (UInt8.ofNat (c.toNat / 262144 % 8 + 0xf0)) = 4 := by
      simp only [width, UInt8.lt_iff_toNat_lt, hb, UInt8.reduceToNat]
      rw [if_neg (by omega), if_neg (by omega), if_neg (by omega), if_neg (by omega),
        if_pos (by omega)]
    have hsecond : secondAllowed (UInt8.ofNat (c.toNat / 262144 % 8 + 0xf0))
        (UInt8.ofNat (c.toNat / 4096 % 64 + 0x80)) = true := by
      simp only [secondAllowed, ← UInt8.toNat_inj, hb, hs, isTail, UInt8.le_iff_toNat_le,
        UInt8.reduceToNat]
      split_ifs <;> simp only [Bool.and_eq_true, decide_eq_true_eq] <;> omega
    have hval : (UInt8.ofNat (c.toNat / 262144 % 8 + 0xf0) &&& 0x07).toNat * 262144 +
        tailBits (UInt8.ofNat (c.toNat / 4096 % 64 + 0x80)) * 4096 +
        tailBits (UInt8.ofNat (c.toNat / 64 % 64 + 0x80)) * 64 +
        tailBits (UInt8.ofNat (c.toNat % 64 + 0x80)) = c.toNat := by
      rw [toNat_and_0x07, hb, tailBits_ofNat, tailBits_ofNat, tailBits_ofNat]
      omega
    rw [List.cons_append, List.cons_append, List.cons_append, List.nil_append,
      step_width_four hw hsecond (isTail_ofNat _) (isTail_ofNat _), hval, Char.ofNat_toNat]
    rfl

/-! ## Whole strings -/

/-- Decoding the bytes of some characters, from any offset, gives the characters back. -/
theorem decodeChars_flatMap (cs : List Char) (offset : Nat) :
    decodeChars (cs.flatMap String.utf8EncodeChar) offset = .ok cs := by
  induction cs generalizing offset with
  | nil => simp [decodeChars]
  | cons c cs ih =>
    obtain ⟨b, tl, hc, hs⟩ := step_utf8EncodeChar c (cs.flatMap String.utf8EncodeChar)
    rw [List.flatMap_cons, hc, List.cons_append, decodeChars, hs]
    simp only [List.drop_left, ih]
    rfl

/-- The bytes of a string are the bytes of its characters, one after the other. -/
theorem toList_toUTF8 (s : String) :
    s.toUTF8.toList = s.toList.flatMap String.utf8EncodeChar := by
  rw [String.toUTF8_eq_toByteArray, ← String.utf8Encode_toList, List.utf8Encode]
  simp

/-- **UTF-8 round trip.** The bytes of a string decode to that string. -/
theorem decode_toUTF8 (s : String) : decode s.toUTF8.toList = .ok s := by
  rw [decode, toList_toUTF8, decodeChars_flatMap]
  exact congrArg Except.ok s.ofList_toList

end WorkLedger.Text.Utf8
