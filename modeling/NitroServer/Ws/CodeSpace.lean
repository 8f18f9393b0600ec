/-
What `validUtf8` accepts beyond UTF-8.

The check bounds a four-byte form from above through its lead byte (`c > 0xf4`). The form
with the lead byte F4 holds the numbers up to U+13FFFF, the code space ends at U+10FFFF, and
so the bytes F4 90 80 80 pass. A `Read` is what one turn of the check passes over: a
character, or a number beyond the code space.

* `validUtf8_iff` — what passes is a list of reads.
* `reads_inj` — bytes are one list of reads at most.
* `validUtf8_exact_iff` — the check is right about exactly the bytes that do not encode a
  number beyond the code space, among header values, close reasons and text messages too.
-/

import NitroServer.Ws.Utf8
import NitroServer.Ws.Frames
import NitroServer.Engine.Loop

namespace NitroServer.Engine.Ws

/-! ### One turn of the check -/

/-- The four-byte form. -/
def fourBytes (n : Nat) : Bytes :=
  [UInt8.ofNat (n / 262144 % 0x08 + 0xf0), UInt8.ofNat (n / 4096 % 0x40 + 0x80),
    UInt8.ofNat (n / 64 % 0x40 + 0x80), UInt8.ofNat (n % 0x40 + 0x80)]

/-- What one turn of the check passes over. -/
inductive Read where
  | char (c : Char)
  | beyond (n : Nat) (low : 0x110000 ≤ n) (high : n < 0x140000)

namespace Read

def code : Read → Nat
  | .char c => c.toNat
  | .beyond n _ _ => n

def encode : Read → Bytes
  | .char c => String.utf8EncodeChar c
  | .beyond n _ _ => fourBytes n

def isBeyond : Read → Bool
  | .char _ => false
  | .beyond .. => true

end Read

/-- The bytes encode a list of numbers, one of which is beyond the code space. -/
def Strays (b : Bytes) : Prop :=
  ∃ rs : List Read, b = rs.flatMap Read.encode ∧ ∃ r ∈ rs, r.isBeyond = true

/-- The check passes over a read. -/
theorem validUtf8_encode (r : Read) (rest : Bytes) :
    validUtf8 (r.encode ++ rest) = validUtf8 rest := by
  cases r with
  | char c => exact validUtf8_char c rest
  | beyond n low high => exact validUtf8_four (by omega) high rest

theorem validUtf8_reads (rs : List Read) : validUtf8 (rs.flatMap Read.encode) = true := by
  induction rs with
  | nil => rw [List.flatMap_nil, validUtf8]
  | cons r rs ih => rw [List.flatMap_cons, validUtf8_encode, ih]

/-! ### Reading a number back -/

/-- The bits of a continuation byte. -/
def tailBits (b : UInt8) : Nat := (b &&& 0x3f).toNat

/-- The number at the front, by the class of the lead byte, and the bytes behind it. -/
def front : Bytes → Nat × Bytes
  | [] => (0, [])
  | c :: rest =>
      if c < 0x80 then (c.toNat, rest)
      else if c &&& 0xe0 = 0xc0 then
        ((c &&& 0x1f).toNat * 64 + tailBits (rest.getD 0 0), rest.drop 1)
      else if c &&& 0xf0 = 0xe0 then
        ((c &&& 0x0f).toNat * 4096 + tailBits (rest.getD 0 0) * 64 + tailBits (rest.getD 1 0),
          rest.drop 2)
      else
        ((c &&& 0x07).toNat * 262144 + tailBits (rest.getD 0 0) * 4096 +
          tailBits (rest.getD 1 0) * 64 + tailBits (rest.getD 2 0), rest.drop 3)

theorem lead2_value : ∀ n < 32, (UInt8.ofNat (n + 0xc0) &&& 0x1f).toNat = n := by
  decide

theorem front_four {n : Nat} (high : n < 0x140000) (rest : Bytes) :
    front (fourBytes n ++ rest) = (n, rest) := by
  obtain ⟨big, two, three, -, value, -⟩ := bytes_of_bits.2.2.2.2 (n / 262144 % 0x08) (by omega)
  obtain ⟨-, value₁⟩ := tail_bits (n / 4096 % 0x40) (by omega)
  obtain ⟨-, value₂⟩ := tail_bits (n / 64 % 0x40) (by omega)
  obtain ⟨-, value₃⟩ := tail_bits (n % 0x40) (by omega)
  have code : n / 262144 % 0x08 * 262144 + n / 4096 % 0x40 * 4096 + n / 64 % 0x40 * 64 +
      n % 0x40 = n := by omega
  simp only [fourBytes, List.cons_append, List.nil_append, front, if_neg big, if_neg two,
    if_neg three, value, tailBits, List.getD_cons_zero, List.getD_cons_succ, value₁, value₂, value₃,
    code, List.drop_succ_cons, List.drop_zero]

theorem front_char (c : Char) (rest : Bytes) :
    front (String.utf8EncodeChar c ++ rest) = (c.toNat, rest) := by
  have valid : c.val.toNat < 0xd800 ∨ 0xdfff < c.val.toNat ∧ c.val.toNat < 0x110000 := c.valid
  have same : c.toNat = c.val.toNat := rfl
  unfold String.utf8EncodeChar
  dsimp only
  rw [same]
  split
  · have small : (UInt8.ofNat c.val.toNat).toNat = c.val.toNat := by
      rw [UInt8.toNat_ofNat', Nat.mod_eq_of_lt (by omega)]
    have low := bytes_of_bits.2.1 c.val.toNat (by omega)
    simp only [List.cons_append, List.nil_append, front, if_pos low, small]
  · split
    · obtain ⟨big, lead, -⟩ := bytes_of_bits.2.2.1 (c.val.toNat / 64 % 0x20) (by omega)
      have value := lead2_value (c.val.toNat / 64 % 0x20) (by omega)
      obtain ⟨-, value₁⟩ := tail_bits (c.val.toNat % 0x40) (by omega)
      have code : c.val.toNat / 64 % 0x20 * 64 + c.val.toNat % 0x40 = c.val.toNat := by omega
      simp only [List.cons_append, List.nil_append, front, if_neg big, if_pos lead, value, tailBits,
        List.getD_cons_zero, value₁, code, List.drop_succ_cons, List.drop_zero]
    · split
      · obtain ⟨big, two, lead, value⟩ :=
          bytes_of_bits.2.2.2.1 (c.val.toNat / 4096 % 0x10) (by omega)
        obtain ⟨-, value₁⟩ := tail_bits (c.val.toNat / 64 % 0x40) (by omega)
        obtain ⟨-, value₂⟩ := tail_bits (c.val.toNat % 0x40) (by omega)
        have code : c.val.toNat / 4096 % 0x10 * 4096 + c.val.toNat / 64 % 0x40 * 64 +
            c.val.toNat % 0x40 = c.val.toNat := by omega
        simp only [List.cons_append, List.nil_append, front, if_neg big, if_neg two, if_pos lead,
          value, tailBits, List.getD_cons_zero, List.getD_cons_succ, value₁, value₂, code,
          List.drop_succ_cons, List.drop_zero]
      · exact front_four (by omega) rest

theorem front_encode (r : Read) (rest : Bytes) : front (r.encode ++ rest) = (r.code, rest) := by
  cases r with
  | char c => exact front_char c rest
  | beyond n low high => exact front_four high rest

theorem encode_ne_nil (r : Read) : r.encode ≠ [] := by
  intro none
  cases r with
  | beyond n low high => cases none
  | char c =>
      have short := congrArg List.length none
      have pos := c.utf8Size_pos
      rw [Read.encode, String.length_utf8EncodeChar, List.length_nil] at short
      omega

theorem code_inj {r s : Read} (same : r.code = s.code) : r = s := by
  have range : ∀ c : Char, c.toNat < 0xd800 ∨ 0xdfff < c.toNat ∧ c.toNat < 0x110000 :=
    fun c => c.valid
  cases r with
  | char c =>
      cases s with
      | char d => rw [Char.toNat_inj.mp same]
      | beyond n low high =>
          have := range c
          simp only [Read.code] at same
          omega
  | beyond m low high =>
      cases s with
      | char d =>
          have := range d
          simp only [Read.code] at same
          omega
      | beyond n low' high' =>
          obtain rfl : m = n := same
          rfl

/-- Bytes are one list of reads at most. -/
theorem reads_inj {rs ss : List Read} (same : rs.flatMap Read.encode = ss.flatMap Read.encode) :
    rs = ss := by
  induction rs generalizing ss with
  | nil =>
      cases ss with
      | nil => rfl
      | cons s ss =>
          rw [List.flatMap_nil, List.flatMap_cons, eq_comm, List.append_eq_nil_iff] at same
          exact absurd same.1 (encode_ne_nil s)
  | cons r rs ih =>
      cases ss with
      | nil =>
          rw [List.flatMap_nil, List.flatMap_cons, List.append_eq_nil_iff] at same
          exact absurd same.1 (encode_ne_nil r)
      | cons s ss =>
          have fronts := congrArg front same
          rw [List.flatMap_cons, List.flatMap_cons, front_encode, front_encode] at fronts
          rw [code_inj (congrArg Prod.fst fronts), ih (congrArg Prod.snd fronts)]

/-! ### What passes is a list of reads -/

theorem exists_char {n : Nat} (valid : n < 0xd800 ∨ 0xdfff < n ∧ n < 0x110000) :
    ∃ c : Char, c.val.toNat = n := by
  have small : (UInt32.ofNat n).toNat = n := by
    rw [UInt32.toNat_ofNat', Nat.mod_eq_of_lt (by omega)]
  have scalar : (UInt32.ofNat n).isValidChar := by
    rw [UInt32.isValidChar, small]
    exact valid
  exact ⟨⟨UInt32.ofNat n, scalar⟩, small⟩

theorem read_one {n : Nat} (high : n ≤ 0x7f) : ∃ r : Read, r.encode = [UInt8.ofNat n] := by
  obtain ⟨c, rfl⟩ := exists_char (n := n) (by omega)
  refine ⟨.char c, ?_⟩
  simp only [Read.encode, String.utf8EncodeChar, if_pos high]

theorem read_two {n : Nat} (low : 0x80 ≤ n) (high : n ≤ 0x7ff) :
    ∃ r : Read, r.encode = [UInt8.ofNat (n / 64 % 0x20 + 0xc0), UInt8.ofNat (n % 0x40 + 0x80)] := by
  obtain ⟨c, rfl⟩ := exists_char (n := n) (by omega)
  have more : ¬ c.val.toNat ≤ 0x7f := by omega
  refine ⟨.char c, ?_⟩
  simp only [Read.encode, String.utf8EncodeChar, if_neg more, if_pos high]

theorem read_three {n : Nat} (low : 0x800 ≤ n) (high : n ≤ 0xffff)
    (scalar : ¬ (0xd800 ≤ n ∧ n ≤ 0xdfff)) :
    ∃ r : Read, r.encode = [UInt8.ofNat (n / 4096 % 0x10 + 0xe0),
      UInt8.ofNat (n / 64 % 0x40 + 0x80), UInt8.ofNat (n % 0x40 + 0x80)] := by
  obtain ⟨c, rfl⟩ := exists_char (n := n) (by omega)
  have more : ¬ c.val.toNat ≤ 0x7f := by omega
  have yet : ¬ c.val.toNat ≤ 0x7ff := by omega
  refine ⟨.char c, ?_⟩
  simp only [Read.encode, String.utf8EncodeChar, if_neg more, if_neg yet, if_pos high]

/-- The four-byte form: a character, or beyond the code space. -/
theorem read_four {n : Nat} (low : 0x10000 ≤ n) (high : n < 0x140000) :
    ∃ r : Read, r.encode = fourBytes n := by
  by_cases scalar : n < 0x110000
  · obtain ⟨c, rfl⟩ := exists_char (n := n) (by omega)
    have more : ¬ c.val.toNat ≤ 0x7f := by omega
    have yet : ¬ c.val.toNat ≤ 0x7ff := by omega
    have still : ¬ c.val.toNat ≤ 0xffff := by omega
    refine ⟨.char c, ?_⟩
    simp only [Read.encode, String.utf8EncodeChar, if_neg more, if_neg yet, if_neg still, fourBytes]
  · exact ⟨.beyond n (by omega) high, rfl⟩

/-- Continuation and lead bytes, taken apart and put together again: one pass over all bytes. -/
theorem byte_parts : ∀ b : UInt8,
    (isTail b = true → tailBits b < 64 ∧ UInt8.ofNat (tailBits b + 0x80) = b) ∧
    (b < 0x80 → b.toNat ≤ 0x7f) ∧
    (b &&& 0xe0 = 0xc0 → (b &&& 0x1f).toNat < 32 ∧ UInt8.ofNat ((b &&& 0x1f).toNat + 0xc0) = b ∧
      (0xc2 ≤ b → 2 ≤ (b &&& 0x1f).toNat)) ∧
    (b &&& 0xf0 = 0xe0 → (b &&& 0x0f).toNat < 16 ∧ UInt8.ofNat ((b &&& 0x0f).toNat + 0xe0) = b) ∧
    (b &&& 0xf8 = 0xf0 → UInt8.ofNat ((b &&& 0x07).toNat + 0xf0) = b ∧
      (b ≤ 0xf4 → (b &&& 0x07).toNat ≤ 4)) :=
  byte_induction (by decide +kernel)

theorem tail_parts (d : UInt8) (tail : isTail d = true) :
    tailBits d < 64 ∧ UInt8.ofNat (tailBits d + 0x80) = d :=
  (byte_parts d).1 tail

theorem read_lead2 {c d : UInt8} (lead : c &&& 0xe0 = 0xc0) (low : 0xc2 ≤ c)
    (tail : isTail d = true) : ∃ r : Read, r.encode = [c, d] := by
  obtain ⟨fits, same, least⟩ := (byte_parts c).2.2.1 lead
  obtain ⟨fits₁, same₁⟩ := tail_parts d tail
  have two := least low
  generalize (c &&& 0x1f).toNat = h at *
  generalize tailBits d = i at *
  obtain ⟨r, bytes⟩ := read_two (n := h * 64 + i) (by omega) (by omega)
  have lead_ : (h * 64 + i) / 64 % 0x20 = h := by omega
  have tail_ : (h * 64 + i) % 0x40 = i := by omega
  rw [lead_, tail_, same, same₁] at bytes
  exact ⟨r, bytes⟩

theorem read_lead3 {c d e : UInt8} (lead : c &&& 0xf0 = 0xe0) (tail₁ : isTail d = true)
    (tail₂ : isTail e = true)
    (low : 0x800 ≤ (c &&& 0x0f).toNat * 4096 + tailBits d * 64 + tailBits e)
    (scalar : ¬ (0xd800 ≤ (c &&& 0x0f).toNat * 4096 + tailBits d * 64 + tailBits e ∧
      (c &&& 0x0f).toNat * 4096 + tailBits d * 64 + tailBits e ≤ 0xdfff)) :
    ∃ r : Read, r.encode = [c, d, e] := by
  obtain ⟨fits, same⟩ := (byte_parts c).2.2.2.1 lead
  obtain ⟨fits₁, same₁⟩ := tail_parts d tail₁
  obtain ⟨fits₂, same₂⟩ := tail_parts e tail₂
  generalize (c &&& 0x0f).toNat = h at *
  generalize tailBits d = i at *
  generalize tailBits e = j at *
  obtain ⟨r, bytes⟩ := read_three low (by omega) scalar
  have lead_ : (h * 4096 + i * 64 + j) / 4096 % 0x10 = h := by omega
  have tail₁_ : (h * 4096 + i * 64 + j) / 64 % 0x40 = i := by omega
  have tail₂_ : (h * 4096 + i * 64 + j) % 0x40 = j := by omega
  rw [lead_, tail₁_, tail₂_, same, same₁, same₂] at bytes
  exact ⟨r, bytes⟩

theorem read_lead4 {c d e f : UInt8} (lead : c &&& 0xf8 = 0xf0) (high : c ≤ 0xf4)
    (tail₁ : isTail d = true) (tail₂ : isTail e = true) (tail₃ : isTail f = true)
    (low : 0x10000 ≤ (c &&& 0x07).toNat * 262144 + tailBits d * 4096 + tailBits e * 64 +
      tailBits f) :
    ∃ r : Read, r.encode = [c, d, e, f] := by
  obtain ⟨same, most⟩ := (byte_parts c).2.2.2.2 lead
  obtain ⟨fits₁, same₁⟩ := tail_parts d tail₁
  obtain ⟨fits₂, same₂⟩ := tail_parts e tail₂
  obtain ⟨fits₃, same₃⟩ := tail_parts f tail₃
  have fits := most high
  generalize (c &&& 0x07).toNat = h at *
  generalize tailBits d = i at *
  generalize tailBits e = j at *
  generalize tailBits f = k at *
  obtain ⟨r, bytes⟩ := read_four low (by omega)
  have lead_ : (h * 262144 + i * 4096 + j * 64 + k) / 262144 % 0x08 = h := by omega
  have tail₁_ : (h * 262144 + i * 4096 + j * 64 + k) / 4096 % 0x40 = i := by omega
  have tail₂_ : (h * 262144 + i * 4096 + j * 64 + k) / 64 % 0x40 = j := by omega
  have tail₃_ : (h * 262144 + i * 4096 + j * 64 + k) % 0x40 = k := by omega
  rw [fourBytes, lead_, tail₁_, tail₂_, tail₃_, same, same₁, same₂, same₃] at bytes
  exact ⟨r, bytes⟩

/-- What passes begins with a read. -/
theorem validUtf8_front {c : UInt8} {rest : Bytes} (ok : validUtf8 (c :: rest) = true) :
    ∃ (r : Read) (more : Bytes), c :: rest = r.encode ++ more ∧ validUtf8 more = true := by
  rw [validUtf8.eq_def] at ok
  dsimp only at ok
  split at ok
  · rename_i small
    obtain ⟨r, bytes⟩ := read_one ((byte_parts c).2.1 small)
    rw [UInt8.ofNat_toNat] at bytes
    exact ⟨r, rest, by rw [bytes]; rfl, ok⟩
  · split at ok
    · rename_i lead
      split at ok
      · rename_i d more
        simp only [Bool.and_eq_true, decide_eq_true_eq] at ok
        obtain ⟨r, bytes⟩ := read_lead2 lead ok.1.1 ok.1.2
        exact ⟨r, more, by rw [bytes]; rfl, ok.2⟩
      · cases ok
    · split at ok
      · rename_i lead
        split at ok
        · rename_i d e more
          simp only [Bool.and_eq_true, decide_eq_true_eq] at ok
          obtain ⟨⟨⟨tail₁, tail₂⟩, low, scalar⟩, ok⟩ := ok
          obtain ⟨r, bytes⟩ := read_lead3 lead tail₁ tail₂ low scalar
          exact ⟨r, more, by rw [bytes]; rfl, ok⟩
        · cases ok
      · split at ok
        · rename_i lead
          split at ok
          · rename_i d e f more
            simp only [Bool.and_eq_true, decide_eq_true_eq] at ok
            obtain ⟨⟨⟨⟨⟨high, tail₁⟩, tail₂⟩, tail₃⟩, low⟩, ok⟩ := ok
            obtain ⟨r, bytes⟩ := read_lead4 lead high tail₁ tail₂ tail₃ low
            exact ⟨r, more, by rw [bytes]; rfl, ok⟩
          · cases ok
        · cases ok

/-- What passes is a list of reads. -/
theorem validUtf8_iff (b : Bytes) :
    validUtf8 b = true ↔ ∃ rs : List Read, b = rs.flatMap Read.encode := by
  constructor
  · intro ok
    generalize size : b.length = n
    induction n using Nat.strong_induction_on generalizing b with
    | _ n ih =>
        cases b with
        | nil => exact ⟨[], rfl⟩
        | cons c rest =>
            obtain ⟨r, more, split, left⟩ := validUtf8_front ok
            have shorter : more.length < n := by
              have total := congrArg List.length split
              have pos := List.length_pos_of_ne_nil (encode_ne_nil r)
              rw [List.length_append] at total
              omega
            obtain ⟨rs, rest_⟩ := ih more.length shorter more left rfl
            exact ⟨r :: rs, by rw [List.flatMap_cons, ← rest_, split]⟩
  · rintro ⟨rs, rfl⟩
    exact validUtf8_reads rs

/-- UTF-8 is what has no number beyond the code space. -/
theorem utf8_reads (rs : List Read) :
    Utf8 (rs.flatMap Read.encode) ↔ ∀ r ∈ rs, r.isBeyond = false := by
  constructor
  · rintro ⟨cs, same⟩ r mem
    have chars : cs.flatMap String.utf8EncodeChar = (cs.map Read.char).flatMap Read.encode := by
      rw [List.flatMap_map]
      rfl
    rw [reads_inj (same.trans chars), List.mem_map] at mem
    obtain ⟨c, -, rfl⟩ := mem
    rfl
  · intro scalar
    induction rs with
    | nil => exact ⟨[], rfl⟩
    | cons r rs ih =>
        obtain ⟨cs, rest⟩ := ih fun s mem => scalar s (List.mem_cons_of_mem r mem)
        have here := scalar r List.mem_cons_self
        cases r with
        | char c => exact ⟨c :: cs, by rw [List.flatMap_cons, List.flatMap_cons, rest, Read.encode]⟩
        | beyond n low high => cases here

/-- The check is right about what encodes no number beyond the code space. -/
theorem exact_iff (b : Bytes) : (validUtf8 b = true ↔ Utf8 b) ↔ ¬ Strays b := by
  constructor
  · rintro right ⟨rs, rfl, r, mem, beyond⟩
    have scalar := (utf8_reads rs).mp (right.mp (validUtf8_reads rs)) r mem
    exact Bool.false_ne_true (scalar.symm.trans beyond)
  · intro no_stray
    constructor
    · intro ok
      obtain ⟨rs, rfl⟩ := (validUtf8_iff b).mp ok
      refine (utf8_reads rs).mpr fun r mem => eq_false_of_ne_true fun beyond => ?_
      exact no_stray ⟨rs, rfl, r, mem, beyond⟩
    · exact Utf8.valid

/-- What passes is UTF-8 unless it encodes a number beyond the code space. -/
theorem utf8_of_valid {b : Bytes} (ok : validUtf8 b = true) : Utf8 b ↔ ¬ Strays b := by
  rw [← exact_iff, ok, eq_self_iff_true, true_iff]

theorem parseField_valid {line : Bytes} {h : Header} (field : parseField line = some h) :
    validUtf8 h.value = true := by
  unfold parseField at field
  split at field
  · cases field
  · split at field
    · cases field
    · split at field
      · cases field
      · cases field
      · split at field
        · cases field
        · dsimp only at field
          split at field
          · cases field
          · rename_i ok
            split at field
            · cases field
            · obtain rfl := Option.some.inj field
              simpa using ok

theorem closeCode_valid {hi lo : UInt8} {reason : Bytes}
    (protocol : closeCode (hi :: lo :: reason) ≠ 1002) (text : closeCode (hi :: lo :: reason) ≠ 1007) :
    validUtf8 reason = true := by
  simp only [closeCode] at protocol text
  split at protocol
  · exact absurd rfl protocol
  · split at protocol
    · rename_i known bad
      rw [if_neg known, if_pos bad] at text
      exact absurd rfl text
    · rename_i ok
      simpa using ok

theorem wsReassembled_valid (env : Env) {r : Reactor} (plain : r.conn.wsMsgCompressed = false)
    (taken : (r.wsReassembled env true kText).2 = true) : validUtf8 r.conn.wsMsg = true := by
  unfold Reactor.wsReassembled at taken
  split at taken
  · cases taken
  · split at taken
    · rename_i more
      exact absurd more (by decide)
    · split at taken
      · cases taken
      · rename_i ok
        simpa [plain] using ok

/-- `validUtf8` is right about exactly the bytes that encode no number beyond the code space,
and so are the header values, the close reasons and the text messages it lets in. -/
theorem validUtf8_exact_iff (env : Env) :
    (∀ b, (validUtf8 b = true ↔ Utf8 b) ↔ ¬ Strays b) ∧
    (∀ line h, parseField line = some h → (Utf8 h.value ↔ ¬ Strays h.value)) ∧
    (∀ hi lo reason, closeCode (hi :: lo :: reason) ≠ 1002 →
      closeCode (hi :: lo :: reason) ≠ 1007 → (Utf8 reason ↔ ¬ Strays reason)) ∧
    ∀ r : Reactor, r.conn.wsMsgCompressed = false → (r.wsReassembled env true kText).2 = true →
      (Utf8 r.conn.wsMsg ↔ ¬ Strays r.conn.wsMsg) :=
  ⟨exact_iff, fun _ _ field => utf8_of_valid (parseField_valid field),
    fun _ _ _ protocol text => utf8_of_valid (closeCode_valid protocol text),
    fun _ plain taken => utf8_of_valid (wsReassembled_valid env plain taken)⟩

def euro : Bytes := [0xe2, 0x82, 0xac]

theorem euro_plain : ¬ Strays euro := by
  rintro ⟨rs, same, r, mem, beyond⟩
  have one : euro = [Read.char '€'].flatMap Read.encode := by decide
  rw [← reads_inj (one.symm.trans same), List.mem_singleton] at mem
  rw [mem] at beyond
  cases beyond

theorem validUtf8_exact_euro :
    (validUtf8 euro = true ↔ Utf8 euro) ∧
      (Utf8 (Header.mk (ascii "x") euro).value ↔ ¬ Strays (Header.mk (ascii "x") euro).value) ∧
      (Utf8 euro ↔ ¬ Strays euro) ∧
      (Utf8 { sampleConn.conn with wsMsg := euro }.wsMsg ↔
        ¬ Strays { sampleConn.conn with wsMsg := euro }.wsMsg) := by
  obtain ⟨exact_, field, close, text⟩ := validUtf8_exact_iff sampleEnv
  refine ⟨(exact_ euro).mpr euro_plain, field (ascii "x: " ++ euro) _ ?_, close 3 0xe8 euro ?_ ?_,
    text { sampleConn with conn := { sampleConn.conn with wsMsg := euro } } rfl ?_⟩
  · decide +kernel
  · decide
  · decide
  · decide

/-- U+110000: the check lets it in, as a header value too, and it is not UTF-8. -/
theorem validUtf8_beyond :
    validUtf8 [0xf4, 0x90, 0x80, 0x80] = true ∧ ¬ Utf8 [0xf4, 0x90, 0x80, 0x80] ∧
      parseField (ascii "x: " ++ [0xf4, 0x90, 0x80, 0x80]) =
        some ⟨ascii "x", [0xf4, 0x90, 0x80, 0x80]⟩ := by
  refine ⟨by decide, fun utf8 => ?_, by decide +kernel⟩
  have one : [0xf4, 0x90, 0x80, 0x80] =
      [Read.beyond 0x110000 (by decide) (by decide)].flatMap Read.encode := by decide
  rw [one] at utf8
  exact absurd ((utf8_reads _).mp utf8 _ (List.mem_singleton_self _)) (by decide)

end NitroServer.Engine.Ws
