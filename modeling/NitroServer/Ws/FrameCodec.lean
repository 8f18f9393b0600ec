/-
`parseHeader` against `encodeFrame`.

The encoder writes the length in the least of the three forms that holds it
(`LenForm.least`). `Ws.Frames` reads masked client frames of any form; here the frame is the
engine's own, without a mask, and masking it afterwards gives a client frame.

* `parseHeader_plain` — the parser on the first two bytes of an engine frame.
* `encodeFrame_parses` — the header is read back, on no part of it, and from the masked frame
  with the mask.
-/

import NitroServer.Ws.Frames

namespace NitroServer.Engine.Ws

/-! ### The encoder's form -/

/-- The form `encodeFrame` writes a length in. -/
def LenForm.least (n : Nat) : LenForm :=
  if n < 126 then .short else if n ≤ 0xffff then .medium else .long

theorem LenForm.least_fits {n : Nat} (small : n < 2 ^ 63) : (LenForm.least n).fits n := by
  unfold LenForm.least
  split
  · rename_i h
    exact Nat.le_of_lt_succ h
  · split
    · rename_i h
      exact Nat.lt_succ_of_le h
    · exact small

theorem LenForm.least_short {n : Nat} (short : n ≤ 125) : LenForm.least n = .short :=
  if_pos (Nat.lt_succ_of_le short)

/-- The header the encoder writes. -/
def plainHeader (opcode n : Nat) (fin : Bool) : Bytes :=
  firstByte fin false opcode :: ((LenForm.least n).len7 n).toUInt8 ::
    beBytes n (LenForm.least n).size

theorem plainHeader_length (opcode n : Nat) (fin : Bool) :
    (plainHeader opcode n fin).length = (LenForm.least n).size + 2 := by
  rw [plainHeader, List.length_cons, List.length_cons, beBytes_length]

theorem firstByte_low : ∀ fin : Bool, ∀ opcode < 16,
    ((if fin then 0x80 else 0x00) ||| (opcode.toUInt8 &&& 0x0f) : UInt8) =
      firstByte fin false opcode := by
  decide

theorem encodeFrame_eq {opcode : Nat} (known : knownOpcode opcode = true) (payload : Bytes)
    (fin : Bool) :
    encodeFrame opcode payload fin = plainHeader opcode payload.length fin ++ payload := by
  have first := firstByte_low fin opcode (knownOpcode_lt known)
  unfold encodeFrame plainHeader LenForm.least
  dsimp only
  rw [first]
  split
  · rfl
  · split
    · rfl
    · rfl

/-! ### Reading it back -/

theorem plainByte_bits : ∀ len7 < 128, (len7.toUInt8 &&& 0x7f).toNat = len7 ∧
    len7.toUInt8 &&& 0x80 = 0 := by
  decide

section Plain

variable {opcode n : Nat} {fin : Bool}

/-- The parser on the first two bytes of an engine frame. -/
theorem parseHeader_plain (known : knownOpcode opcode = true)
    (control : isControl opcode = true → n ≤ 125 ∧ fin = true) (small : n < 2 ^ 63) (allow : Bool)
    (rest : Bytes) :
    parseHeader (firstByte fin false opcode :: ((LenForm.least n).len7 n).toUInt8 :: rest) allow =
      match parseLength ((LenForm.least n).len7 n) rest with
      | none => none
      | some (length, pos) =>
          if isControl opcode ∧ 125 < length then none
          else some ⟨fin, false, opcode, false, length, pos, [0, 0, 0, 0]⟩ := by
  obtain ⟨opcode_, reserved, rsv, whole, -⟩ :=
    firstByte_bits fin false opcode (knownOpcode_lt known)
  obtain ⟨len7, unmasked⟩ := plainByte_bits _ (LenForm.len7_lt (LenForm.least_fits small))
  have noRsv : firstByte fin false opcode &&& 0x40 = 0 := by
    by_contra set
    exact Bool.false_ne_true (rsv.mp set)
  have cut : ¬ (isControl opcode = true ∧ firstByte fin false opcode &&& 0x80 = 0) :=
    fun ⟨ctl, clear⟩ => whole.mpr (control ctl).2 clear
  have fin_ : decide (firstByte fin false opcode &&& 0x80 ≠ 0) = fin := by simp [whole]
  have rsv1 : decide (firstByte fin false opcode &&& 0x40 ≠ 0) = false := by simp [noRsv]
  have refused : ¬ (firstByte fin false opcode &&& 0x40 ≠ 0 ∧ (!allow || isControl opcode) = true) :=
    fun ⟨set, _⟩ => set noRsv
  simp only [parseHeader, opcode_, len7, fin_, rsv1]
  rw [if_neg (by simp [reserved]), if_neg refused, if_neg (by simp [known])]
  cases parseLength ((LenForm.least n).len7 n) rest with
  | none => rfl
  | some lp =>
      obtain ⟨length, pos⟩ := lp
      simp only [unmasked, ne_eq, not_true_eq_false, decide_false, Bool.false_eq_true, if_false,
        if_neg cut]

/-- What the parser reads off an engine frame. -/
def plainParsed (opcode n : Nat) (fin : Bool) : FrameHeader :=
  ⟨fin, false, opcode, false, n, (LenForm.least n).size + 2, [0, 0, 0, 0]⟩

theorem parseHeader_plainHeader (known : knownOpcode opcode = true)
    (control : isControl opcode = true → n ≤ 125 ∧ fin = true) (small : n < 2 ^ 63) (allow : Bool)
    (more : Bytes) :
    parseHeader (plainHeader opcode n fin ++ more) allow = some (plainParsed opcode n fin) := by
  have long : ¬ (isControl opcode = true ∧ 125 < n) :=
    fun ⟨ctl, beyond⟩ => absurd (control ctl).1 (by omega)
  rw [plainHeader, List.cons_append, List.cons_append,
    parseHeader_plain known control small allow, parseLength_form (LenForm.least_fits small)]
  simp only [if_neg long, plainParsed]

/-- On a part of the header the parser finds none. -/
theorem parseHeader_plainPart (known : knownOpcode opcode = true)
    (control : isControl opcode = true → n ≤ 125 ∧ fin = true) (small : n < 2 ^ 63) (allow : Bool)
    {part : Bytes} (here : part <+: plainHeader opcode n fin)
    (short : part.length < (LenForm.least n).size + 2) : parseHeader part allow = none := by
  match part with
  | [] => rfl
  | [_] => rfl
  | b0 :: b1 :: rest =>
      rw [plainHeader, List.cons_prefix_cons, List.cons_prefix_cons] at here
      obtain ⟨rfl, rfl, -⟩ := here
      have missing : rest.length < (LenForm.least n).size := by
        simp only [List.length_cons] at short
        omega
      rw [parseHeader_plain known control small allow, parseLength_part missing]

end Plain

/-! ### Masking -/

/-- The frame with the mask bit set, a key between header and payload, and its payload
masked. -/
def maskFrame (key frame : Bytes) (headerSize : Nat) : Bytes :=
  (frame.take headerSize).modify 1 (0x80 ||| ·) ++ key ++ unmask key (frame.drop headerSize)

/-- A masked engine frame is a client frame. -/
theorem maskFrame_client {opcode : Nat} {fin : Bool} {payload key : Bytes}
    (known : knownOpcode opcode = true)
    (control : isControl opcode = true → payload.length ≤ 125 ∧ fin = true)
    (small : payload.length < 2 ^ 63) (four : key.length = 4) :
    ∃ f : ClientFrame, f.encode = maskFrame key (encodeFrame opcode payload fin)
        ((LenForm.least payload.length).size + 2) ∧ f.rsv1 = false ∧
      f.parsed = { plainParsed opcode payload.length fin with
        masked := true, mask := key, headerSize := (LenForm.least payload.length).size + 2 + 4 } := by
  refine ⟨⟨fin, false, opcode, LenForm.least payload.length, key, payload, known,
    LenForm.least_fits small, four, fun ctl => ⟨(control ctl).2, rfl, LenForm.least_short
      (control ctl).1⟩⟩, ?_, rfl, ?_⟩
  · have size := plainHeader_length opcode payload.length fin
    rw [maskFrame, encodeFrame_eq known, List.take_left' size, List.drop_left' size, plainHeader]
    simp only [ClientFrame.encode, ClientFrame.header, ClientFrame.b0, ClientFrame.b1,
      ClientFrame.tail, List.modify_succ_cons, List.modify_zero_cons, List.cons_append,
      List.append_assoc]
  · simp only [ClientFrame.parsed, ClientFrame.header_length, plainParsed]

/-- `parseHeader` reads the header of `encodeFrame` back, on no part of it, and from the masked
frame with the mask. -/
theorem encodeFrame_parses {opcode : Nat} {fin : Bool} {payload : Bytes}
    (known : knownOpcode opcode = true)
    (control : isControl opcode = true → payload.length ≤ 125 ∧ fin = true)
    (small : payload.length < 2 ^ 63) (allow : Bool) :
    ∃ h : FrameHeader, h.opcode = opcode ∧ h.fin = fin ∧ h.rsv1 = false ∧ h.masked = false ∧
      h.length = payload.length ∧
      (encodeFrame opcode payload fin).drop h.headerSize = payload ∧
      h.headerSize + h.length = (encodeFrame opcode payload fin).length ∧
      (∀ more, parseHeader (encodeFrame opcode payload fin ++ more) allow = some h) ∧
      (∀ part, part <+: encodeFrame opcode payload fin → part.length < h.headerSize →
        parseHeader part allow = none) ∧
      ∀ key more, key.length = 4 →
        parseHeader (maskFrame key (encodeFrame opcode payload fin) h.headerSize ++ more) allow =
          some { h with masked := true, mask := key, headerSize := h.headerSize + 4 } := by
  have size := plainHeader_length opcode payload.length fin
  have shape := encodeFrame_eq known payload fin
  refine ⟨plainParsed opcode payload.length fin, rfl, rfl, rfl, rfl, rfl, ?_, ?_, ?_, ?_, ?_⟩
  · rw [shape]
    exact List.drop_left' size
  · rw [shape, List.length_append, size]
    rfl
  · intro more
    rw [shape, List.append_assoc]
    exact parseHeader_plainHeader known control small allow _
  · intro part here short
    have inside : part <+: plainHeader opcode payload.length fin := by
      rw [shape] at here
      exact List.prefix_of_prefix_length_le here (List.prefix_append _ _) (size ▸ short.le)
    exact parseHeader_plainPart known control small allow inside short
  · intro key more four
    obtain ⟨f, encoded, rsv1, parsed⟩ := maskFrame_client known control small four
    have size_ : (plainParsed opcode payload.length fin).headerSize =
        (LenForm.least payload.length).size + 2 := rfl
    have set : f.rsv1 = true → allow = true := fun set =>
      absurd (rsv1.symm.trans set) Bool.false_ne_true
    rw [size_, ← encoded, ClientFrame.encode, List.append_assoc, f.parseHeader_header set, parsed]

/-- A text message of three bytes. -/
theorem encodeFrame_parses_text :
    ∃ h : FrameHeader, h.opcode = kText ∧ h.fin = true ∧ h.rsv1 = false ∧ h.masked = false ∧
      h.length = (ascii "abc").length ∧
      (encodeFrame kText (ascii "abc") true).drop h.headerSize = ascii "abc" ∧
      h.headerSize + h.length = (encodeFrame kText (ascii "abc") true).length ∧
      (∀ more, parseHeader (encodeFrame kText (ascii "abc") true ++ more) false = some h) ∧
      (∀ part, part <+: encodeFrame kText (ascii "abc") true → part.length < h.headerSize →
        parseHeader part false = none) ∧
      ∀ key more, key.length = 4 →
        parseHeader (maskFrame key (encodeFrame kText (ascii "abc") true) h.headerSize ++ more)
          false = some { h with masked := true, mask := key, headerSize := h.headerSize + 4 } :=
  encodeFrame_parses (by decide) (fun control => absurd control (by decide)) (by decide) false

end NitroServer.Engine.Ws
