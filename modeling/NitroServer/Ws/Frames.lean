/-
Client frames on the wire (RFC 6455 §5.2), and what `parseHeader` makes of them.

A `ClientFrame` is a frame the header parser accepts: every length encoding that can
hold the payload length is allowed, minimal or not, and a control frame is whole and
short. `encode` puts it on the wire.

* `parseHeader_header` — the parser reads the header of an encoded frame back,
  whatever follows it.
* `parseHeader_part` — on a part of a header it finds none.
* `unmask_unmask` — masking twice gives the payload back.
* `Start.complete` — conversely, bytes that begin like a frame are the beginning of
  one: what is missing can be filled with zeros.
-/

import NitroServer.Engine.WebSocket

namespace NitroServer.Engine

namespace Ws

/-! ### Numbers -/

theorem beBytes_length (n k : Nat) : (beBytes n k).length = k := by
  induction k with
  | zero => rfl
  | succ k ih => simp [beBytes, ih]

theorem beNat_append (a b : Bytes) : beNat (a ++ b) = beNat a * 256 ^ b.length + beNat b := by
  induction b using List.reverseRecOn with
  | nil => simp [beNat]
  | append_singleton b x ih =>
      have snoc : ∀ (c : Bytes) (x : UInt8), beNat (c ++ [x]) = beNat c * 256 + x.toNat := by
        intro c x
        simp [beNat]
      rw [← List.append_assoc, snoc, snoc, ih, List.length_append, List.length_singleton]
      ring

theorem beNat_lt (b : Bytes) : beNat b < 256 ^ b.length := by
  induction b using List.reverseRecOn with
  | nil => decide
  | append_singleton b x ih =>
      rw [beNat_append, List.length_append, List.length_singleton, pow_one, pow_succ]
      have hx : beNat [x] < 256 := by simpa [beNat] using x.toNat_lt
      omega

theorem beNat_beBytes (n k : Nat) : beNat (beBytes n k) = n % 256 ^ k := by
  induction k with
  | zero => simp [beBytes, beNat, Nat.mod_one]
  | succ k ih =>
      have head : beNat [(n / 256 ^ k % 256).toUInt8] = n / 256 ^ k % 256 := by
        simp [beNat, Nat.mod_eq_of_lt (Nat.mod_lt _ (show 0 < 256 by decide))]
      rw [beBytes, ← List.singleton_append, beNat_append, head, ih, beBytes_length, pow_succ,
        Nat.mod_mul, Nat.add_comm, Nat.mul_comm]

/-- Bytes are the big-endian form of the number they spell. -/
theorem beBytes_beNat (b : Bytes) : beBytes (beNat b) b.length = b := by
  have mods : ∀ (n k : Nat), beBytes (n % 256 ^ k) k = beBytes n k := by
    intro n k
    induction k generalizing n with
    | zero => rfl
    | succ k ih =>
        rw [beBytes, beBytes, ← ih, ← ih n, Nat.mod_mod_of_dvd _ (pow_dvd_pow _ (Nat.le_succ k)),
          pow_succ, Nat.mod_mul_right_div_self, Nat.mod_mod]
  induction b with
  | nil => rfl
  | cons x b ih =>
      have split : beNat (x :: b) = x.toNat * 256 ^ b.length + beNat b := by
        rw [← List.singleton_append, beNat_append]
        simp [beNat]
      have small := beNat_lt b
      have high : (x.toNat * 256 ^ b.length + beNat b) / 256 ^ b.length = x.toNat := by
        rw [Nat.mul_comm, Nat.mul_add_div (Nat.pow_pos (by decide)), Nat.div_eq_of_lt small, Nat.add_zero]
      have low : (x.toNat * 256 ^ b.length + beNat b) % 256 ^ b.length = beNat b := by
        rw [Nat.mul_comm, Nat.mul_add_mod, Nat.mod_eq_of_lt small]
      rw [List.length_cons, beBytes, ← mods _ b.length, split, high, low, ih,
        Nat.mod_eq_of_lt x.toNat_lt]
      simp

/-! ### Masking -/

theorem unmask_length (mask payload : Bytes) : (unmask mask payload).length = payload.length := by
  simp [unmask]

theorem unmask_unmask (mask payload : Bytes) : unmask mask (unmask mask payload) = payload := by
  refine List.ext_getElem (by simp [unmask]) fun i h _ => ?_
  simp [unmask]

/-! ### Padding -/

/-- The first `n` bytes, with zeros for the missing ones. -/
def padTo (n : Nat) (b : Bytes) : Bytes := b.take n ++ List.replicate (n - b.length) 0

theorem padTo_length (n : Nat) (b : Bytes) : (padTo n b).length = n := by
  simp only [padTo, List.length_append, List.length_take, List.length_replicate]
  omega

theorem padTo_of_le {n : Nat} {b : Bytes} (h : n ≤ b.length) : padTo n b = b.take n := by
  simp [padTo, Nat.sub_eq_zero_of_le h]

theorem prefix_padTo {n : Nat} {b : Bytes} (h : b.length ≤ n) : b <+: padTo n b := by
  rw [padTo, List.take_of_length_le h]
  exact List.prefix_append _ _

/-! ### Frames -/

/-- Where the payload length is written: in the second byte, in two more, or in eight. -/
inductive LenForm where
  | short | medium | long
deriving DecidableEq, Repr

/-- The form can hold the length. -/
def LenForm.fits : LenForm → Nat → Prop
  | .short, n => n ≤ 125
  | .medium, n => n < 2 ^ 16
  | .long, n => n < 2 ^ 63

instance (form : LenForm) (n : Nat) : Decidable (form.fits n) :=
  match form with
  | .short => inferInstanceAs (Decidable (n ≤ 125))
  | .medium => inferInstanceAs (Decidable (n < 2 ^ 16))
  | .long => inferInstanceAs (Decidable (n < 2 ^ 63))

/-- The seven-bit length. -/
def LenForm.len7 : LenForm → Nat → Nat
  | .short, n => n
  | .medium, _ => 126
  | .long, _ => 127

/-- The number of length bytes behind the second byte. -/
def LenForm.size : LenForm → Nat
  | .short => 0
  | .medium => 2
  | .long => 8

/-- A frame as a client sends it, its payload not masked yet. RSV1 is not restricted
to the frames RFC 7692 allows it on (`ClientFrame.Allowed` does that). -/
structure ClientFrame where
  fin : Bool
  rsv1 : Bool
  opcode : Nat
  form : LenForm
  mask : Bytes
  payload : Bytes
  known : knownOpcode opcode = true
  fits : form.fits payload.length
  mask_length : mask.length = 4
  control : isControl opcode = true → fin = true ∧ rsv1 = false ∧ form = .short

/-- FIN, RSV1 and the opcode. -/
def firstByte (fin rsv1 : Bool) (opcode : Nat) : UInt8 :=
  (if fin then 0x80 else 0) ||| (if rsv1 then 0x40 else 0) ||| opcode.toUInt8

namespace ClientFrame

def b0 (f : ClientFrame) : UInt8 := firstByte f.fin f.rsv1 f.opcode

/-- The mask bit and the seven-bit length. -/
def b1 (f : ClientFrame) : UInt8 := 0x80 ||| (f.form.len7 f.payload.length).toUInt8

/-- The header behind the first two bytes. -/
def tail (f : ClientFrame) : Bytes := beBytes f.payload.length f.form.size ++ f.mask

def header (f : ClientFrame) : Bytes := f.b0 :: f.b1 :: f.tail

def encode (f : ClientFrame) : Bytes := f.header ++ unmask f.mask f.payload

/-- What the parser reads off the header. -/
def parsed (f : ClientFrame) : FrameHeader :=
  ⟨f.fin, f.rsv1, f.opcode, true, f.payload.length, f.header.length, f.mask⟩

theorem tail_length (f : ClientFrame) : f.tail.length = f.form.size + 4 := by
  rw [tail, List.length_append, beBytes_length, f.mask_length]

theorem header_length (f : ClientFrame) : f.header.length = f.form.size + 6 := by
  simp [header, tail_length]

theorem encode_length (f : ClientFrame) : f.encode.length = f.header.length + f.payload.length := by
  rw [encode, List.length_append, unmask_length]

theorem encode_ne_nil (f : ClientFrame) : f.encode ≠ [] := by
  simp [encode, header]

end ClientFrame

/-! ### Bits of the first two bytes -/

theorem knownOpcode_cases {opcode : Nat} (h : knownOpcode opcode = true) :
    opcode = 0 ∨ opcode = 1 ∨ opcode = 2 ∨ opcode = 8 ∨ opcode = 9 ∨ opcode = 10 := by
  simpa [knownOpcode, or_assoc] using h

theorem knownOpcode_lt {opcode : Nat} (h : knownOpcode opcode = true) : opcode < 16 := by
  have := knownOpcode_cases h
  omega

/-- The bits of the first byte. -/
theorem firstByte_bits : ∀ fin rsv1 : Bool, ∀ opcode < 16,
    (firstByte fin rsv1 opcode &&& 0x0f).toNat = opcode ∧
    firstByte fin rsv1 opcode &&& 0x30 = 0 ∧
    (firstByte fin rsv1 opcode &&& 0x40 ≠ 0 ↔ rsv1 = true) ∧
    (firstByte fin rsv1 opcode &&& 0x80 ≠ 0 ↔ fin = true) ∧
    (firstByte fin rsv1 opcode &&& 0x70 ≠ 0 ↔ rsv1 = true) := by
  decide +kernel

/-- The bits of the second. -/
theorem secondByte_bits : ∀ len7 < 128,
    ((0x80 ||| len7.toUInt8 : UInt8) &&& 0x7f).toNat = len7 ∧
      (0x80 ||| len7.toUInt8 : UInt8) &&& 0x80 ≠ 0 := by
  decide +kernel

/-- Every byte is a number below 256. -/
theorem byte_induction {P : UInt8 → Prop} (h : ∀ n < 256, P n.toUInt8) (b : UInt8) : P b := by
  simpa using h b.toNat b.toNat_lt

/-- The two bytes, taken apart and put together again: one pass over all bytes. -/
theorem header_bytes : ∀ b : UInt8,
    (b &&& 0x30 = 0 →
      firstByte (decide (b &&& 0x80 ≠ 0)) (decide (b &&& 0x40 ≠ 0)) (b &&& 0x0f).toNat = b) ∧
    (b &&& 0x80 ≠ 0 → 0x80 ||| (b &&& 0x7f).toNat.toUInt8 = b) ∧
    (b.toNat < 128 ↔ b &&& 0x80 = 0) ∧ (b &&& 0x7f).toNat < 128 ∧
    (b &&& 0x70 = 0 → b &&& 0x30 = 0) :=
  byte_induction (by decide +kernel)

/-- A first byte without the two upper reserved bits is made of its parts. -/
theorem firstByte_parts (b : UInt8) (plain : b &&& 0x30 = 0) :
    firstByte (decide (b &&& 0x80 ≠ 0)) (decide (b &&& 0x40 ≠ 0)) (b &&& 0x0f).toNat = b :=
  (header_bytes b).1 plain

theorem secondByte_parts (b : UInt8) (masked : b &&& 0x80 ≠ 0) :
    0x80 ||| (b &&& 0x7f).toNat.toUInt8 = b :=
  (header_bytes b).2.1 masked

theorem topBit_clear (b : UInt8) : b.toNat < 128 ↔ b &&& 0x80 = 0 := (header_bytes b).2.2.1

theorem len7_lt (b : UInt8) : (b &&& 0x7f).toNat < 128 := (header_bytes b).2.2.2.1

theorem reserved_of_anyRsv (b : UInt8) (plain : b &&& 0x70 = 0) : b &&& 0x30 = 0 :=
  (header_bytes b).2.2.2.2 plain

/-! ### Reading a header back -/

theorem LenForm.len7_lt {form : LenForm} {n : Nat} (fits : form.fits n) : form.len7 n < 128 := by
  cases form with
  | short => exact Nat.lt_of_le_of_lt fits (by decide)
  | medium => exact show 126 < 128 by decide
  | long => exact show 127 < 128 by decide

/-- The length bytes of a form are read back. -/
theorem parseLength_form {form : LenForm} {n : Nat} (fits : form.fits n) (more : Bytes) :
    parseLength (form.len7 n) (beBytes n form.size ++ more) = some (n, form.size + 2) := by
  have taken : ∀ k, (beBytes n k ++ more).take k = beBytes n k := fun k =>
    List.take_left' (beBytes_length n k)
  cases form with
  | short =>
      have : n ≤ 125 := fits
      change parseLength n more = some (n, 2)
      rw [parseLength, if_neg (by omega), if_neg (by omega)]
  | medium =>
      have : n < 2 ^ 16 := fits
      have enough : ¬ (beBytes n 2 ++ more).length < 2 := by
        rw [List.length_append, beBytes_length]
        omega
      change parseLength 126 (beBytes n 2 ++ more) = some (n, 4)
      rw [parseLength, if_pos rfl, if_neg enough, taken, beNat_beBytes, Nat.mod_eq_of_lt (by omega)]
  | long =>
      have small : n < 2 ^ 63 := fits
      have enough : ¬ (beBytes n 8 ++ more).length < 8 := by
        rw [List.length_append, beBytes_length]
        omega
      have top : (n / 256 ^ 7 % 256).toUInt8 &&& 0x80 = 0 := by
        rw [← topBit_clear, Nat.toUInt8_eq, UInt8.toNat_ofNat']
        omega
      change parseLength 127 (beBytes n 8 ++ more) = some (n, 10)
      rw [parseLength, if_neg (by decide), if_pos rfl, if_neg enough, if_neg (fun h => h top),
        taken, beNat_beBytes, Nat.mod_eq_of_lt (by omega)]

/-- Too few length bytes. -/
theorem parseLength_part {form : LenForm} {n : Nat} {rest : Bytes}
    (part : rest.length < form.size) : parseLength (form.len7 n) rest = none := by
  cases form with
  | short => cases part
  | medium =>
      change parseLength 126 rest = none
      rw [parseLength, if_pos rfl, if_pos (show rest.length < 2 from part)]
  | long =>
      change parseLength 127 rest = none
      rw [parseLength, if_neg (by decide), if_pos rfl, if_pos (show rest.length < 8 from part)]

namespace ClientFrame

variable (f : ClientFrame)

theorem b0_opcode : (f.b0 &&& 0x0f).toNat = f.opcode :=
  (firstByte_bits f.fin f.rsv1 f.opcode (knownOpcode_lt f.known)).1

theorem b0_reserved : f.b0 &&& 0x30 = 0 :=
  (firstByte_bits f.fin f.rsv1 f.opcode (knownOpcode_lt f.known)).2.1

theorem b0_rsv1 : f.b0 &&& 0x40 ≠ 0 ↔ f.rsv1 = true :=
  (firstByte_bits f.fin f.rsv1 f.opcode (knownOpcode_lt f.known)).2.2.1

theorem b0_fin : f.b0 &&& 0x80 ≠ 0 ↔ f.fin = true :=
  (firstByte_bits f.fin f.rsv1 f.opcode (knownOpcode_lt f.known)).2.2.2.1

theorem b0_anyRsv : f.b0 &&& 0x70 ≠ 0 ↔ f.rsv1 = true :=
  (firstByte_bits f.fin f.rsv1 f.opcode (knownOpcode_lt f.known)).2.2.2.2

theorem b1_len7 : (f.b1 &&& 0x7f).toNat = f.form.len7 f.payload.length :=
  (secondByte_bits _ (LenForm.len7_lt f.fits)).1

theorem b1_masked : f.b1 &&& 0x80 ≠ 0 := (secondByte_bits _ (LenForm.len7_lt f.fits)).2

/-- A control frame carries at most 125 bytes. -/
theorem control_length (h : isControl f.opcode = true) : f.payload.length ≤ 125 := by
  have fits := f.fits
  rw [(f.control h).2.2] at fits
  exact fits

/-- Behind the first two bytes of a frame, the parser only looks for the length and
the mask. -/
theorem parseHeader_start {allow : Bool} (rsv : f.rsv1 = true → allow = true) (rest : Bytes) :
    parseHeader (f.b0 :: f.b1 :: rest) allow =
      match parseLength (f.form.len7 f.payload.length) rest with
      | none => none
      | some (length, pos) =>
          if isControl f.opcode ∧ 125 < length then none
          else if rest.length + 2 < pos + 4 then none
          else some ⟨f.fin, f.rsv1, f.opcode, true, length, pos + 4,
            ((f.b0 :: f.b1 :: rest).drop pos).take 4⟩ := by
  have rsvOk : ¬ (f.b0 &&& 0x40 ≠ 0 ∧ (!allow || isControl f.opcode) = true) := by
    rintro ⟨set, bad⟩
    have set := f.b0_rsv1.mp set
    rcases Bool.or_eq_true_iff.mp bad with bad | bad
    · simp [rsv set] at bad
    · simp [(f.control bad).2.1] at set
  have whole : ¬ (isControl f.opcode ∧ f.b0 &&& 0x80 = 0) := fun ⟨ctl, clear⟩ =>
    f.b0_fin.mpr (f.control ctl).1 clear
  have fin : decide (f.b0 &&& 0x80 ≠ 0) = f.fin := by simp [f.b0_fin]
  have rsv1 : decide (f.b0 &&& 0x40 ≠ 0) = f.rsv1 := by simp [f.b0_rsv1]
  simp only [parseHeader, f.b0_opcode, f.b1_len7, fin, rsv1]
  rw [if_neg (by simp [f.b0_reserved]), if_neg rsvOk, if_neg (by simp [f.known])]
  cases parseLength (f.form.len7 f.payload.length) rest with
  | none => rfl
  | some lp =>
      obtain ⟨length, pos⟩ := lp
      simp only [f.b1_masked, ne_eq, not_false_eq_true, decide_true, if_true, if_neg whole,
        List.length_cons]

/-- The parser reads the header of an encoded frame back. -/
theorem parseHeader_header {allow : Bool} (rsv : f.rsv1 = true → allow = true) (more : Bytes) :
    parseHeader (f.header ++ more) allow = some f.parsed := by
  have shape : f.header ++ more =
      f.b0 :: f.b1 :: (beBytes f.payload.length f.form.size ++ (f.mask ++ more)) := by
    simp [header, tail]
  rw [shape, f.parseHeader_start rsv, parseLength_form f.fits]
  have length : ¬ (isControl f.opcode ∧ 125 < f.payload.length) := fun ⟨ctl, beyond⟩ =>
    absurd (f.control_length ctl) (by omega)
  have enough : ¬ (beBytes f.payload.length f.form.size ++ (f.mask ++ more)).length + 2 <
      f.form.size + 2 + 4 := by
    simp only [List.length_append, beBytes_length, f.mask_length]
    omega
  have mask : ((f.b0 :: f.b1 :: (beBytes f.payload.length f.form.size ++ (f.mask ++ more))).drop
      (f.form.size + 2)).take 4 = f.mask := by
    rw [List.drop_succ_cons, List.drop_succ_cons,
      List.drop_left' (beBytes_length f.payload.length f.form.size),
      List.take_left' f.mask_length]
  simp only [if_neg length, if_neg enough, mask, parsed, header_length]

/-- On a part of a header the parser finds none. -/
theorem parseHeader_part {allow : Bool} (rsv : f.rsv1 = true → allow = true) {rest more : Bytes}
    (part : rest ++ more = f.tail) (missing : more ≠ []) :
    parseHeader (f.b0 :: f.b1 :: rest) allow = none := by
  have total := f.tail_length
  rw [← part, List.length_append] at total
  have some_more := List.length_pos_of_ne_nil missing
  rw [f.parseHeader_start rsv]
  by_cases h : rest.length < f.form.size
  · rw [parseLength_part h]
  · -- the length is there, the mask is not
    have head : rest = beBytes f.payload.length f.form.size ++ rest.drop f.form.size := by
      have := congrArg (List.take f.form.size) part
      rw [List.take_append_of_le_length (by omega), tail,
        List.take_left' (beBytes_length _ _)] at this
      rw [← this, List.take_append_drop]
    rw [head, parseLength_form f.fits, ← head]
    simp only [if_pos (show rest.length + 2 < f.form.size + 2 + 4 by omega)]
    split <;> rfl

/-- The checks of `wsProcess` on the first two bytes pass. -/
theorem start_ok {deflate : Bool} (rsv : f.rsv1 = true → deflate = true) :
    badStart deflate f.b0 f.b1 = false ∧ badControl f.b0 f.b1 = false := by
  constructor
  · simp only [badStart, f.b0_opcode, f.known, Bool.not_true, Bool.or_false,
      Bool.or_eq_false_iff, beq_eq_false_iff_ne]
    refine ⟨?_, f.b1_masked⟩
    cases deflate with
    | true => simp [f.b0_reserved]
    | false =>
        have : f.rsv1 ≠ true := fun h => by simpa using rsv h
        simpa using (not_congr f.b0_anyRsv).mpr this
  · simp only [badControl, f.b0_opcode]
    cases hc : isControl f.opcode with
    | false => rfl
    | true =>
        have len : (f.b1 &&& 0x7f).toNat ≤ 125 := by
          rw [f.b1_len7, (f.control hc).2.2]
          exact f.control_length hc
        simp only [Bool.true_and, Bool.or_eq_false_iff, beq_eq_false_iff_ne,
          decide_eq_false_iff_not, UInt8.not_lt, UInt8.le_iff_toNat_le]
        exact ⟨f.b0_fin.mpr (f.control hc).1, len⟩

end ClientFrame

/-! ### Bytes that begin like a frame -/

/-- The form a second byte announces. -/
def formOf (b1 : UInt8) : LenForm :=
  if (b1 &&& 0x7f).toNat = 126 then .medium
  else if (b1 &&& 0x7f).toNat = 127 then .long
  else .short

/-- The least payload length the length bytes at hand allow. -/
def leastLength (b1 : UInt8) (rest : Bytes) : Nat :=
  if formOf b1 = .short then (b1 &&& 0x7f).toNat else beNat (padTo (formOf b1).size rest)

/-- The first two bytes pass the checks of `wsProcess`, and RSV1 is not on a control
frame. -/
structure Start (deflate : Bool) (b0 b1 : UInt8) : Prop where
  start : badStart deflate b0 b1 = false
  control : badControl b0 b1 = false
  rsv1 : b0 &&& 0x40 ≠ 0 → isControl (b0 &&& 0x0f).toNat = false

/-- The top bit of a 64-bit length is set. -/
def topBit (b1 : UInt8) (rest : Bytes) : Prop :=
  formOf b1 = .long ∧ rest.getD 0 0 &&& 0x80 ≠ 0

instance (b1 : UInt8) (rest : Bytes) : Decidable (topBit b1 rest) :=
  inferInstanceAs (Decidable (_ ∧ _))

theorem padTo_append (m n : Nat) (b : Bytes) : padTo m b ++ padTo n (b.drop m) = padTo (m + n) b := by
  rcases Nat.le_total m b.length with h | h
  · rw [padTo_of_le h, padTo, padTo, List.take_add, List.length_drop, List.append_assoc]
    congr 3
    omega
  · have none : b.drop m = [] := List.drop_of_length_le h
    rw [none, padTo, padTo, padTo, List.take_nil, List.nil_append, List.length_nil,
      List.take_of_length_le h, List.take_of_length_le (h.trans (Nat.le_add_right m n)),
      List.append_assoc, ← List.replicate_add]
    congr 2
    omega

theorem padTo_padTo_beNat {n : Nat} {rest : Bytes} :
    beBytes (beNat (padTo n rest)) n = padTo n rest := by
  have := beBytes_beNat (padTo n rest)
  rwa [padTo_length] at this

theorem formOf_len7 (b1 : UInt8) (n : Nat) (h : formOf b1 = .short → n = (b1 &&& 0x7f).toNat) :
    (formOf b1).len7 n = (b1 &&& 0x7f).toNat := by
  unfold formOf at h ⊢
  split
  · exact Eq.symm ‹_›
  · rw [if_neg ‹_›] at h
    split
    · exact Eq.symm ‹_›
    · rw [if_neg ‹_›] at h
      exact h rfl

/-- The least length fits its form, unless the top bit is set. -/
theorem leastLength_fits {b1 : UInt8} {rest : Bytes} (top : ¬ topBit b1 rest) :
    (formOf b1).fits (leastLength b1 rest) := by
  have len7 := len7_lt b1
  unfold leastLength
  cases hf : formOf b1 with
  | short =>
      have : (b1 &&& 0x7f).toNat ≠ 126 ∧ (b1 &&& 0x7f).toNat ≠ 127 := by
        unfold formOf at hf
        split at hf
        · cases hf
        · split at hf
          · cases hf
          · exact ⟨‹_›, ‹_›⟩
      change (b1 &&& 0x7f).toNat ≤ 125
      omega
  | medium =>
      have := beNat_lt (padTo 2 rest)
      rw [padTo_length] at this
      exact this
  | long =>
      have clear : rest.getD 0 0 &&& 0x80 = 0 := by
        by_contra set
        exact top ⟨hf, set⟩
      -- the first of the eight bytes is below 128
      change beNat (padTo (1 + 7) rest) < 2 ^ 63
      have first : padTo 1 rest = [rest.getD 0 0] := by
        cases rest <;> simp [padTo]
      have low := beNat_lt (padTo 7 (rest.drop 1))
      have high : beNat [rest.getD 0 0] < 128 := by
        rw [← topBit_clear] at clear
        simpa [beNat] using clear
      rw [padTo_length] at low
      rw [← padTo_append, first, beNat_append, padTo_length]
      omega

/-- Bytes that begin like a frame are the beginning of one: its least length, and zeros
for what is missing. -/
theorem Start.complete {deflate : Bool} {b0 b1 : UInt8} {rest : Bytes} (h : Start deflate b0 b1)
    (top : ¬ topBit b1 rest) :
    ∃ f : ClientFrame, f.fin = decide (b0 &&& 0x80 ≠ 0) ∧ f.rsv1 = decide (b0 &&& 0x40 ≠ 0) ∧
      f.opcode = (b0 &&& 0x0f).toNat ∧ f.form = formOf b1 ∧
      f.payload.length = leastLength b1 rest ∧
      f.encode = b0 :: b1 :: padTo ((formOf b1).size + 4 + leastLength b1 rest) rest := by
  obtain ⟨⟨reserved, known⟩, masked⟩ : (b0 &&& 0x30 = 0 ∧ knownOpcode (b0 &&& 0x0f).toNat = true) ∧
      b1 &&& 0x80 ≠ 0 := by
    have start := h.start
    simp only [badStart, Bool.or_eq_false_iff, Bool.not_eq_false', beq_eq_false_iff_ne] at start
    refine ⟨⟨?_, start.1.2⟩, start.2⟩
    have clear := start.1.1
    cases deflate with
    | true => simpa using clear
    | false => exact reserved_of_anyRsv b0 (by simpa using clear)
  have fits := leastLength_fits top
  let mask := padTo 4 (rest.drop (formOf b1).size)
  let data := padTo (leastLength b1 rest) (rest.drop ((formOf b1).size + 4))
  have control : isControl (b0 &&& 0x0f).toNat = true →
      decide (b0 &&& 0x80 ≠ 0) = true ∧ decide (b0 &&& 0x40 ≠ 0) = false ∧
        formOf b1 = .short := by
    intro hc
    have ok := h.control
    simp only [badControl, hc, Bool.true_and, Bool.or_eq_false_iff, beq_eq_false_iff_ne,
      decide_eq_false_iff_not, UInt8.not_lt, UInt8.le_iff_toNat_le] at ok
    refine ⟨by simpa using ok.1, ?_, ?_⟩
    · rw [decide_eq_false_iff_not]
      intro set
      exact Bool.false_ne_true ((h.rsv1 set).symm.trans hc)
    · have len : (b1 &&& 0x7f).toNat ≤ 125 := ok.2
      rw [formOf, if_neg (by omega), if_neg (by omega)]
  let f : ClientFrame := ⟨decide (b0 &&& 0x80 ≠ 0), decide (b0 &&& 0x40 ≠ 0),
    (b0 &&& 0x0f).toNat, formOf b1, mask, unmask mask data, known,
    by rwa [unmask_length, padTo_length], padTo_length _ _, control⟩
  have len : f.payload.length = leastLength b1 rest := by
    rw [unmask_length, padTo_length]
  refine ⟨f, rfl, rfl, rfl, rfl, len, ?_⟩
  have first : f.b0 = b0 := firstByte_parts b0 reserved
  have second : f.b1 = b1 := by
    rw [ClientFrame.b1, formOf_len7 b1]
    · exact secondByte_parts b1 masked
    · intro short
      rw [len, leastLength, if_pos short]
  have lengths : beBytes f.payload.length (formOf b1).size = padTo (formOf b1).size rest := by
    rw [len, leastLength]
    split
    · rename_i short
      rw [short]
      simp [LenForm.size, beBytes, padTo]
    · exact padTo_padTo_beNat
  have body : unmask f.mask f.payload = data := unmask_unmask mask data
  change (f.b0 :: f.b1 :: (beBytes f.payload.length (formOf b1).size ++ mask)) ++
    unmask f.mask f.payload = _
  rw [first, second, lengths, body, padTo_append, List.cons_append, List.cons_append, padTo_append]

end Ws

end NitroServer.Engine
