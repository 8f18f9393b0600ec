/-
`validUtf8` accepts every UTF-8 text.

A text is a list of characters, and `String.utf8EncodeChar` gives the bytes of each. The
check walks over one character at a time, by the class of its lead byte
(`validUtf8_char`).
-/

import NitroServer.Engine.WsCodec

namespace NitroServer.Engine.Ws

/-- The bytes are the UTF-8 form of some text. -/
def Utf8 (b : Bytes) : Prop := ∃ cs : List Char, b = cs.flatMap String.utf8EncodeChar

example : validUtf8 [0xe2, 0x82, 0xac] = true ∧ validUtf8 [0xe0, 0x82, 0xac] = false := by
  decide +kernel

/-! ### Lead and continuation bytes -/

/-- The bytes that hold a number's bits: one pass over the numbers. -/
theorem bytes_of_bits :
    (∀ n < 64, isTail (UInt8.ofNat (n + 0x80)) = true ∧
      (UInt8.ofNat (n + 0x80) &&& 0x3f).toNat = n) ∧
    (∀ n < 128, UInt8.ofNat n < 0x80) ∧
    (∀ n < 32, ¬ UInt8.ofNat (n + 0xc0) < 0x80 ∧ UInt8.ofNat (n + 0xc0) &&& 0xe0 = 0xc0 ∧
      (2 ≤ n → 0xc2 ≤ UInt8.ofNat (n + 0xc0))) ∧
    (∀ n < 16, ¬ UInt8.ofNat (n + 0xe0) < 0x80 ∧ UInt8.ofNat (n + 0xe0) &&& 0xe0 ≠ 0xc0 ∧
      UInt8.ofNat (n + 0xe0) &&& 0xf0 = 0xe0 ∧ (UInt8.ofNat (n + 0xe0) &&& 0x0f).toNat = n) ∧
    ∀ n < 8, ¬ UInt8.ofNat (n + 0xf0) < 0x80 ∧ UInt8.ofNat (n + 0xf0) &&& 0xe0 ≠ 0xc0 ∧
      UInt8.ofNat (n + 0xf0) &&& 0xf0 ≠ 0xe0 ∧ UInt8.ofNat (n + 0xf0) &&& 0xf8 = 0xf0 ∧
      (UInt8.ofNat (n + 0xf0) &&& 0x07).toNat = n ∧ (n ≤ 4 → UInt8.ofNat (n + 0xf0) ≤ 0xf4) := by
  decide +kernel

theorem tail_bits (n : Nat) (small : n < 64) : isTail (UInt8.ofNat (n + 0x80)) = true ∧
    (UInt8.ofNat (n + 0x80) &&& 0x3f).toNat = n :=
  bytes_of_bits.1 n small

/-! ### One character -/

theorem validUtf8_two {n : Nat} (low : 0x80 ≤ n) (high : n ≤ 0x7ff) (rest : Bytes) :
    validUtf8 (UInt8.ofNat (n / 64 % 0x20 + 0xc0) :: UInt8.ofNat (n % 0x40 + 0x80) :: rest) =
      validUtf8 rest := by
  obtain ⟨big, lead, least⟩ := bytes_of_bits.2.2.1 (n / 64 % 0x20) (by omega)
  obtain ⟨tail, -⟩ := tail_bits (n % 0x40) (by omega)
  rw [validUtf8, if_neg big, if_pos lead, tail, decide_eq_true (least (by omega)), Bool.true_and,
    Bool.true_and]

theorem validUtf8_three {n : Nat} (low : 0x800 ≤ n) (high : n ≤ 0xffff)
    (scalar : ¬ (0xd800 ≤ n ∧ n ≤ 0xdfff)) (rest : Bytes) :
    validUtf8 (UInt8.ofNat (n / 4096 % 0x10 + 0xe0) :: UInt8.ofNat (n / 64 % 0x40 + 0x80) ::
      UInt8.ofNat (n % 0x40 + 0x80) :: rest) = validUtf8 rest := by
  obtain ⟨big, two, lead, value⟩ := bytes_of_bits.2.2.2.1 (n / 4096 % 0x10) (by omega)
  obtain ⟨tail₁, value₁⟩ := tail_bits (n / 64 % 0x40) (by omega)
  obtain ⟨tail₂, value₂⟩ := tail_bits (n % 0x40) (by omega)
  have cp : n / 4096 % 0x10 * 4096 + n / 64 % 0x40 * 64 + n % 0x40 = n := by omega
  rw [validUtf8, if_neg big, if_neg two, if_pos lead]
  simp only [value, value₁, value₂, cp, tail₁, tail₂, Bool.true_and, Bool.and_eq_right_iff_imp]
  intro _
  exact decide_eq_true ⟨low, scalar⟩

/-- The four-byte form holds three times 2^16 numbers more than there are code points. -/
theorem validUtf8_four {n : Nat} (low : 0x10000 ≤ n) (high : n < 0x140000) (rest : Bytes) :
    validUtf8 (UInt8.ofNat (n / 262144 % 0x08 + 0xf0) :: UInt8.ofNat (n / 4096 % 0x40 + 0x80) ::
      UInt8.ofNat (n / 64 % 0x40 + 0x80) :: UInt8.ofNat (n % 0x40 + 0x80) :: rest) =
      validUtf8 rest := by
  obtain ⟨big, two, three, lead, value, most⟩ :=
    bytes_of_bits.2.2.2.2 (n / 262144 % 0x08) (by omega)
  obtain ⟨tail₁, value₁⟩ := tail_bits (n / 4096 % 0x40) (by omega)
  obtain ⟨tail₂, value₂⟩ := tail_bits (n / 64 % 0x40) (by omega)
  obtain ⟨tail₃, value₃⟩ := tail_bits (n % 0x40) (by omega)
  have cp : n / 262144 % 0x08 * 262144 + n / 4096 % 0x40 * 4096 + n / 64 % 0x40 * 64 + n % 0x40 =
      n := by omega
  rw [validUtf8, if_neg big, if_neg two, if_neg three, if_pos lead]
  simp only [value, value₁, value₂, value₃, cp, tail₁, tail₂, tail₃,
    decide_eq_true (most (by omega)), decide_eq_true low, Bool.true_and]

/-- The check passes over a character. -/
theorem validUtf8_char (c : Char) (rest : Bytes) :
    validUtf8 (String.utf8EncodeChar c ++ rest) = validUtf8 rest := by
  have valid : c.val.toNat < 0xd800 ∨ 0xdfff < c.val.toNat ∧ c.val.toNat < 0x110000 := c.valid
  unfold String.utf8EncodeChar
  dsimp only
  split
  · rw [List.singleton_append, validUtf8.eq_def]
    exact if_pos (bytes_of_bits.2.1 _ (by omega))
  · split
    · exact validUtf8_two (by omega) (by omega) rest
    · split
      · exact validUtf8_three (by omega) (by omega) (by omega) rest
      · exact validUtf8_four (by omega) (by omega) rest

/-- Every text passes the check. -/
theorem Utf8.valid {b : Bytes} (h : Utf8 b) : validUtf8 b = true := by
  obtain ⟨cs, rfl⟩ := h
  induction cs with
  | nil => rw [List.flatMap_nil, validUtf8]
  | cons c cs ih => rw [List.flatMap_cons, validUtf8_char, ih]

end NitroServer.Engine.Ws
