import CodeAtlas.Text.Utf8
import Mathlib.Tactic

set_option autoImplicit false

/-! # UTF-8 read back

The bytes of a text give the text back (`Utf8.decode_encode`). The reader is told by the first byte of a
character how many bytes follow, and checks that they can. There is one lemma for each length; that the
ranges checked there let every character through is a computation on the digits of its number to base 64
(`decodeHead_encodeChar`). The numbers that are no characters, the surrogates, are excluded by the type.
-/

namespace CodeAtlas.Utf8

theorem toNat_byte {n : Nat} (h : n < 256) : (UInt8.ofNat n).toNat = n := by
  rw [UInt8.toNat_ofNat']
  exact Nat.mod_eq_of_lt h

theorem isContinuation_byte {d : Nat} (h : d < 64) : isContinuation (UInt8.ofNat (0x80 + d)) = true := by
  rw [isContinuation, toNat_byte (by omega), Bool.and_eq_true, decide_eq_true_eq, decide_eq_true_eq]
  omega

/-! ## Characters by their length -/

section Lengths

variable {n d₁ d₂ d₃ : Nat} (rest : Bytes)

theorem decodeHead_one (hn : n < 0x80) :
    decodeHead (UInt8.ofNat n) rest = (some (Char.ofNat n), 0) := by
  unfold decodeHead
  rw [toNat_byte (by omega)]
  exact if_pos hn

theorem decodeHead_two (hn : 0xC2 ≤ n ∧ n ≤ 0xDF) (h₁ : d₁ < 64) :
    decodeHead (UInt8.ofNat n) (UInt8.ofNat (0x80 + d₁) :: rest) =
      (some (Char.ofNat ((n - 0xC0) * 64 + d₁)), 1) := by
  unfold decodeHead
  rw [toNat_byte (by omega)]
  simp only [toNat_byte (show 0x80 + d₁ < 256 by omega), isContinuation_byte h₁, if_true,
    Nat.add_sub_cancel_left]
  rw [if_neg (by omega), if_pos (by simpa using hn)]

theorem decodeHead_three (hn : 0xE0 ≤ n ∧ n ≤ 0xEF)
    (hsecond : isSecond n (UInt8.ofNat (0x80 + d₁)) = true) (h₁ : d₁ < 64) (h₂ : d₂ < 64) :
    decodeHead (UInt8.ofNat n) (UInt8.ofNat (0x80 + d₁) :: UInt8.ofNat (0x80 + d₂) :: rest) =
      (some (Char.ofNat ((n - 0xE0) * 4096 + d₁ * 64 + d₂)), 2) := by
  unfold decodeHead
  rw [toNat_byte (by omega)]
  simp only [toNat_byte (show 0x80 + d₁ < 256 by omega), toNat_byte (show 0x80 + d₂ < 256 by omega),
    hsecond, isContinuation_byte h₂, if_true, Nat.add_sub_cancel_left]
  rw [if_neg (by omega), if_neg (by simp; omega), if_pos (by simpa using hn)]

theorem decodeHead_four (hn : 0xF0 ≤ n ∧ n ≤ 0xF4)
    (hsecond : isSecond n (UInt8.ofNat (0x80 + d₁)) = true) (h₁ : d₁ < 64) (h₂ : d₂ < 64)
    (h₃ : d₃ < 64) :
    decodeHead (UInt8.ofNat n) (UInt8.ofNat (0x80 + d₁) :: UInt8.ofNat (0x80 + d₂) ::
        UInt8.ofNat (0x80 + d₃) :: rest) =
      (some (Char.ofNat ((n - 0xF0) * 262144 + d₁ * 4096 + d₂ * 64 + d₃)), 3) := by
  unfold decodeHead
  rw [toNat_byte (by omega)]
  simp only [toNat_byte (show 0x80 + d₁ < 256 by omega), toNat_byte (show 0x80 + d₂ < 256 by omega),
    toNat_byte (show 0x80 + d₃ < 256 by omega), hsecond, isContinuation_byte h₂,
    isContinuation_byte h₃, if_true, Nat.add_sub_cancel_left]
  rw [if_neg (by omega), if_neg (by simp; omega), if_neg (by simp; omega), if_pos (by simpa using hn)]

end Lengths

/-! ## Every character -/

/-- The second byte is in the range that its first byte leaves, if the digits of a character follow. -/
theorem isSecond_byte {n d : Nat} (hd : d < 64) (hlow : n = 0xE0 → 0x20 ≤ d)
    (hsurrogate : n = 0xED → d < 0x20) (hlow' : n = 0xF0 → 0x10 ≤ d) (hhigh : n = 0xF4 → d < 0x10) :
    isSecond n (UInt8.ofNat (0x80 + d)) = true := by
  unfold isSecond secondRange
  rw [toNat_byte (by omega)]
  simp only [beq_iff_eq]
  split_ifs <;> simp only [Bool.and_eq_true, decide_eq_true_eq] <;> omega

/-- **The bytes of a character give it back**, and no byte more is used up. -/
theorem decodeHead_encodeChar (c : Char) (rest : Bytes) :
    ∃ b bs, encodeChar c = b :: bs ∧ decodeHead b (bs ++ rest) = (some c, bs.length) := by
  -- No character is a surrogate or lies past the last code point.
  have hvalid : c.toNat < 0xD800 ∨ (0xDFFF < c.toNat ∧ c.toNat < 0x110000) := c.valid
  have hchar : ∀ {n : Nat}, n = c.toNat → Char.ofNat n = c := by
    intro n hn
    rw [hn, Char.ofNat_toNat]
  unfold encodeChar
  simp only
  split
  · next h₁ =>
    exact ⟨_, [], rfl, by rw [decodeHead_one _ h₁, hchar rfl]; rfl⟩
  · split
    · refine ⟨_, _, rfl, ?_⟩
      rw [List.cons_append, decodeHead_two _ (by omega) (by omega), hchar (by omega)]
      rfl
    · split
      · refine ⟨_, _, rfl, ?_⟩
        have hsecond : isSecond (0xE0 + c.toNat / 4096)
            (UInt8.ofNat (0x80 + c.toNat / 64 % 64)) = true := by
          apply isSecond_byte <;> omega
        rw [List.cons_append, List.cons_append,
          decodeHead_three _ (by omega) hsecond (by omega) (by omega), hchar (by omega)]
        rfl
      · refine ⟨_, _, rfl, ?_⟩
        have hsecond : isSecond (0xF0 + c.toNat / 262144)
            (UInt8.ofNat (0x80 + c.toNat / 4096 % 64)) = true := by
          apply isSecond_byte <;> omega
        rw [List.cons_append, List.cons_append, List.cons_append,
          decodeHead_four _ (by omega) hsecond (by omega) (by omega) (by omega), hchar (by omega)]
        rfl

/-! ## Every text -/

theorem decodeFrom_length (bs rest : Bytes) : decodeFrom bs.length (bs ++ rest) = decodeFrom 0 rest := by
  induction bs with
  | nil => rfl
  | cons b bs ih => exact ih

/-- **A text is read back from its bytes.** -/
theorem decode_encode (t : Text) : decode (encode t) = t := by
  induction t with
  | nil => rfl
  | cons c t ih =>
      obtain ⟨b, bs, hbytes, hhead⟩ := decodeHead_encodeChar c (encode t)
      have hcons : encode (c :: t) = b :: (bs ++ encode t) := by
        rw [encode, List.flatMap_cons, hbytes]
        rfl
      calc decode (encode (c :: t)) = c :: decodeFrom bs.length (bs ++ encode t) := by
            rw [hcons, decode, decodeFrom, hhead]
        _ = c :: decode (encode t) := by rw [decodeFrom_length, decode]
        _ = c :: t := by rw [ih]

end CodeAtlas.Utf8
