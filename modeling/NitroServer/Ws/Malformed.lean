/-
What a session waits on.

`wsProcess` leaves a part of a frame in the buffer. `parseHeader` returns the same for a
header that is incomplete and for one that is malformed, and the checks before it do not
cover all of the latter, so the part may be one that no frame a client may send begins
with (`Stuck`).

* `wsFrame_rest` — a turn that takes no frame closes, or leaves a beginning of a frame
  or stuck bytes.
* `stuck_not_waits` — stuck bytes are indeed the beginning of no such frame.
* `malformed_closes` — when no read leaves stuck bytes behind the last whole frame, the
  session closes or waits on a beginning of a frame, and its buffer stays bounded.
-/

import NitroServer.Ws.Session

namespace NitroServer.Engine

open NitroServer.Lib

namespace Ws

/-! ### Stuck bytes -/

/-- A frame that a client may send can start with the byte. -/
def startsFrame (deflate : Bool) (b0 : UInt8) : Bool :=
  b0 &&& 0x30 == 0 && knownOpcode (b0 &&& 0x0f).toNat &&
    (!isControl (b0 &&& 0x0f).toNat || b0 &&& 0x80 != 0) &&
    (b0 &&& 0x40 == 0 ||
      deflate && ((b0 &&& 0x0f).toNat == kText || (b0 &&& 0x0f).toNat == kBinary))

/-- Bytes that are left to wait on though no frame of a client begins with them: a lone
first byte, which is not looked at; RSV1 on a control frame or on a continuation; a 64-bit
length with its top bit set; a length over the cap whose mask is not there yet. -/
def Stuck (deflate : Bool) (cap : Nat) : Bytes → Prop
  | [] => False
  | [b0] => startsFrame deflate b0 = false
  | b0 :: b1 :: rest =>
      badStart deflate b0 b1 = false ∧ badControl b0 b1 = false ∧
        ((b0 &&& 0x40 ≠ 0 ∧ (b0 &&& 0x0f).toNat ≠ kText ∧ (b0 &&& 0x0f).toNat ≠ kBinary) ∨
          topBit b1 rest ∨
          (rest.length < (formOf b1).size + 4 ∧ isControl (b0 &&& 0x0f).toNat = false ∧
            cap < leastLength b1 rest))

instance (deflate : Bool) (cap : Nat) (buf : Bytes) : Decidable (Stuck deflate cap buf) :=
  match buf with
  | [] => inferInstanceAs (Decidable False)
  | [b0] => inferInstanceAs (Decidable (startsFrame deflate b0 = false))
  | _ :: _ :: _ => inferInstanceAs (Decidable (_ ∧ _ ∧ (_ ∨ _ ∨ _)))

/-- The decoder on a buffer, as far as the session stays open: whole frames are accepted
one after another, and `tail` holds no whole frame. -/
inductive Decodes (deflate : Bool) (cap : Nat) :
    Option Gathered → Bytes → Option Gathered → Bytes → Prop where
  | wait {s : Option Gathered} {tail : Bytes}
      (part : ∀ (f : ClientFrame) (rest : Bytes), (f.rsv1 = true → deflate = true) →
        tail ≠ f.encode ++ rest) : Decodes deflate cap s tail s tail
  | took {s s₁ s' : Option Gathered} {f : ClientFrame} {rest tail : Bytes} {outs : List Out}
      (rsv : f.rsv1 = true → deflate = true) (ok : accept cap s f = some (outs, s₁))
      (more : Decodes deflate cap s₁ rest s' tail) :
      Decodes deflate cap s (f.encode ++ rest) s' tail

/-- A first byte that starts a frame. -/
theorem waits_first {deflate : Bool} {cap : Nat} {b0 : UInt8}
    (h : startsFrame deflate b0 = true) : Waits deflate cap [b0] := by
  simp only [startsFrame, Bool.and_eq_true, Bool.or_eq_true, beq_iff_eq, bne_iff_ne,
    Bool.not_eq_true'] at h
  obtain ⟨⟨⟨reserved, known⟩, control⟩, rsv⟩ := h
  have rsv' : b0 &&& 0x40 ≠ 0 → deflate = true ∧ ((b0 &&& 0x0f).toNat = kText ∨
      (b0 &&& 0x0f).toNat = kBinary) := fun set => rsv.resolve_left set
  have whole : isControl (b0 &&& 0x0f).toNat = true → decide (b0 &&& 0x80 ≠ 0) = true ∧
      decide (b0 &&& 0x40 ≠ 0) = false ∧ LenForm.short = .short := by
    intro ctl
    refine ⟨decide_eq_true (control.resolve_left fun data => Bool.false_ne_true (data.symm.trans ctl)), ?_, rfl⟩
    rw [decide_eq_false_iff_not]
    intro set
    rcases (rsv' set).2 with data | data <;> simp [data, isControl, kText, kBinary] at ctl
  let f : ClientFrame := ⟨decide (b0 &&& 0x80 ≠ 0), decide (b0 &&& 0x40 ≠ 0),
    (b0 &&& 0x0f).toNat, .short, [0, 0, 0, 0], [], known, by decide, rfl, whole⟩
  have first : f.b0 = b0 := firstByte_parts b0 reserved
  refine ⟨f, f.b1 :: (f.tail ++ unmask f.mask f.payload), ⟨fun set => rsv' (of_decide_eq_true set),
    fun _ => Nat.zero_le _⟩, List.cons_ne_nil _ _, ?_⟩
  rw [← first]
  rfl

theorem formOf_b1 (f : ClientFrame) : formOf f.b1 = f.form := by
  have fits := f.fits
  unfold formOf
  rw [f.b1_len7]
  cases hf : f.form with
  | short =>
      rw [hf] at fits
      have small : f.payload.length ≤ 125 := fits
      rw [if_neg (by change f.payload.length ≠ 126; omega),
        if_neg (by change f.payload.length ≠ 127; omega)]
  | medium => rfl
  | long => rfl

/-- A number is not less than its first bytes followed by zeros. -/
theorem beNat_padTo_le {part b : Bytes} (h : part <+: b) : beNat (padTo b.length part) ≤ beNat b := by
  obtain ⟨more, rfl⟩ := h
  have zeros : ∀ n : Nat, beNat (List.replicate n 0) = 0 := by
    intro n
    induction n with
    | zero => rfl
    | succ n ih => rw [List.replicate_succ', beNat_append, ih]; rfl
  have size : (part ++ more).length - part.length = more.length := by simp
  rw [padTo, size, List.take_of_length_le (by simp), beNat_append, beNat_append, zeros,
    List.length_replicate]
  omega

/-- The length at hand is a lower bound. -/
theorem leastLength_le {f : ClientFrame} {rest more : Bytes}
    (h : rest ++ more = f.tail ++ unmask f.mask f.payload) :
    leastLength f.b1 rest ≤ f.payload.length := by
  unfold leastLength
  rw [formOf_b1]
  split
  · rename_i short
    rw [f.b1_len7, short]
    exact le_refl _
  · -- the length bytes at hand begin those of the frame
    have begins : rest.take f.form.size <+: beBytes f.payload.length f.form.size := by
      have whole : (rest ++ more).take f.form.size = beBytes f.payload.length f.form.size := by
        rw [h, ClientFrame.tail, List.append_assoc, List.take_left' (beBytes_length _ _)]
      rw [← whole]
      exact (List.prefix_append rest more).take f.form.size
    have bound := beNat_padTo_le begins
    have small : f.payload.length < 256 ^ f.form.size := by
      have fits := f.fits
      cases hf : f.form with
      | short => exact absurd hf ‹_›
      | medium =>
          rw [hf] at fits
          exact fits
      | long =>
          rw [hf] at fits
          exact lt_of_lt_of_le (show f.payload.length < 2 ^ 63 from fits) (by decide)
    rw [beBytes_length, beNat_beBytes, Nat.mod_eq_of_lt small] at bound
    refine le_trans (le_of_eq ?_) bound
    rw [padTo, padTo, List.take_take, Nat.min_self, List.length_take]
    congr 3
    omega

/-- No frame that a client may send begins with stuck bytes. -/
theorem stuck_not_waits {deflate : Bool} {cap : Nat} {buf : Bytes} (stuck : Stuck deflate cap buf) :
    ¬ Waits deflate cap buf := by
  rintro ⟨f, more, allowed, -, hf⟩
  have data : f.opcode = kText ∨ f.opcode = kBinary → isControl f.opcode = false := by
    rintro (h | h) <;> rw [h] <;> rfl
  match buf, stuck with
  | [b0], stuck =>
      obtain ⟨rfl, -⟩ : f.b0 = b0 ∧ _ := by simpa [ClientFrame.encode, ClientFrame.header] using hf
      refine absurd stuck (ne_true_of_eq_false · ?_)
      simp only [startsFrame, f.b0_opcode, f.b0_reserved, f.known, beq_self_eq_true, Bool.true_and,
        Bool.and_eq_true, Bool.or_eq_true, Bool.not_eq_true', bne_iff_ne, beq_iff_eq]
      constructor
      · cases hc : isControl f.opcode with
        | false => exact .inl rfl
        | true => exact .inr (f.b0_fin.mpr (f.control hc).1)
      · by_cases set : f.b0 &&& 0x40 = 0
        · exact .inl set
        · exact .inr (allowed.rsv1 (f.b0_rsv1.mp set))
  | b0 :: b1 :: rest, ⟨_, _, cause⟩ =>
      obtain ⟨rfl, rfl, hrest⟩ : f.b0 = b0 ∧ f.b1 = b1 ∧
          f.tail ++ unmask f.mask f.payload = rest ++ more := by
        simpa [ClientFrame.encode, ClientFrame.header] using hf
      rcases cause with ⟨set, notText, notBinary⟩ | ⟨long, top⟩ | ⟨-, isData, beyond⟩
      · rw [f.b0_opcode] at notText notBinary
        exact ((allowed.rsv1 (f.b0_rsv1.mp set)).2).elim notText notBinary
      · -- the first length byte of a frame is below 128
        rw [formOf_b1] at long
        have small : f.payload.length < 2 ^ 63 := by
          have fits := f.fits
          rw [long] at fits
          exact fits
        cases rest with
        | nil => exact top rfl
        | cons b rest =>
            have first : (f.payload.length / 256 ^ 7 % 256).toUInt8 = b := by
              rw [ClientFrame.tail, long] at hrest
              exact (List.cons.inj hrest).1
            refine top ?_
            change b &&& 0x80 = 0
            rw [← first, ← topBit_clear, Nat.toUInt8_eq, UInt8.toNat_ofNat']
            omega
      · rw [f.b0_opcode] at isData
        exact absurd (allowed.length isData)
          (Nat.not_le.mpr (lt_of_lt_of_le beyond (leastLength_le hrest.symm)))

theorem parseHeader_rsvControl {deflate : Bool} {b0 b1 : UInt8} {rest : Bytes}
    (set : b0 &&& 0x40 ≠ 0) (control : isControl (b0 &&& 0x0f).toNat = true) :
    parseHeader (b0 :: b1 :: rest) deflate = none := by
  rw [parseHeader]
  split
  · rfl
  · exact if_pos ⟨set, Bool.or_eq_true_iff.mpr (.inr control)⟩

theorem parseHeader_topBit {deflate : Bool} {b0 b1 : UInt8} {rest : Bytes}
    (top : topBit b1 rest) : parseHeader (b0 :: b1 :: rest) deflate = none := by
  have len7 : (b1 &&& 0x7f).toNat = 127 := by
    have long := top.1
    unfold formOf at long
    split at long
    · cases long
    · split at long
      · assumption
      · cases long
  have noLength : parseLength (b1 &&& 0x7f).toNat rest = none := by
    rw [len7, parseLength, if_neg (by decide), if_pos rfl]
    split
    · rfl
    · exact if_pos top.2
  simp only [parseHeader, noLength]
  repeat' split
  all_goals rfl

end Ws

open Ws

variable {env : Env}

namespace Reactor

variable {r : Reactor}

/-- A turn that finds no header leaves everything as it is. -/
theorem wsFrame_noHeader {b0 b1 : UInt8} {rest : Bytes} (hbuf : r.conn.buf = b0 :: b1 :: rest)
    (start : badStart r.conn.deflate b0 b1 = false) (control : badControl b0 b1 = false)
    (header : parseHeader (b0 :: b1 :: rest) r.conn.deflate = none) :
    r.wsFrame env = (r, false) := by
  rw [wsFrame_cons hbuf, if_neg (by simp [start]), if_neg (by simp [control]), hbuf, header]

/-- A part of a data frame over the cap: closed when its header is whole, else stuck. -/
theorem wsFrame_long {f : ClientFrame} {rest more : Bytes}
    (rsv : f.rsv1 = true → r.conn.deflate = true) (hbuf : r.conn.buf = f.b0 :: f.b1 :: rest)
    (hf : f.tail ++ unmask f.mask f.payload = rest ++ more)
    (data : isControl f.opcode = false) (beyond : env.cfg.serverMax < f.payload.length) :
    r.wsFrame env = (r.wsCloseConn env 1009, false) ∨
      r.wsFrame env = (r, false) ∧ rest.length < f.form.size + 4 := by
  obtain ⟨start, control⟩ := f.start_ok rsv
  have tails : f.tail <+: rest ++ more := ⟨_, hf⟩
  rcases Nat.lt_or_ge rest.length f.tail.length with part | whole
  · obtain ⟨lacks, hlacks⟩ :=
      List.prefix_of_prefix_length_le (List.prefix_append rest more) tails part.le
    have missing : lacks ≠ [] := by
      rintro rfl
      simp [← hlacks] at part
    rw [f.tail_length] at part
    exact .inr ⟨wsFrame_noHeader hbuf start control (f.parseHeader_part rsv hlacks missing), part⟩
  · obtain ⟨part, rfl⟩ :=
      List.prefix_of_prefix_length_le tails (List.prefix_append rest more) whole
    have header : parseHeader r.conn.buf r.conn.deflate = some f.parsed := by
      rw [hbuf, ← List.cons_append, ← List.cons_append]
      exact f.parseHeader_header rsv part
    refine .inl ?_
    rw [wsFrame_cons hbuf, if_neg (by simp [start]), if_neg (by simp [control]), header]
    exact if_pos ⟨by simp [ClientFrame.parsed, data], beyond⟩

/-- Two bytes that pass the checks, and no whole frame. -/
theorem wsFrame_started {b0 b1 : UInt8} {rest : Bytes} (hbuf : r.conn.buf = b0 :: b1 :: rest)
    (start : badStart r.conn.deflate b0 b1 = false) (control : badControl b0 b1 = false)
    (part : ∀ (f : ClientFrame) (rest : Bytes), (f.rsv1 = true → r.conn.deflate = true) →
      r.conn.buf ≠ f.encode ++ rest) :
    r.wsFrame env = (r.wsCloseConn env 1009, false) ∨
      r.wsFrame env = (r, false) ∧ (Ws.Waits r.conn.deflate env.cfg.serverMax r.conn.buf ∨
        Stuck r.conn.deflate env.cfg.serverMax r.conn.buf) := by
  by_cases ctl : b0 &&& 0x40 ≠ 0 ∧ isControl (b0 &&& 0x0f).toNat = true
  · -- RSV1 on a control frame
    refine .inr ⟨wsFrame_noHeader hbuf start control (parseHeader_rsvControl ctl.1 ctl.2), .inr ?_⟩
    rw [hbuf]
    refine ⟨start, control, .inl ⟨ctl.1, fun h => ?_, fun h => ?_⟩⟩ <;>
      exact absurd (h ▸ ctl.2) (by decide)
  · by_cases top : topBit b1 rest
    · refine .inr ⟨wsFrame_noHeader hbuf start control (parseHeader_topBit top), .inr ?_⟩
      rw [hbuf]
      exact ⟨start, control, .inr (.inl top)⟩
    · have started : Start r.conn.deflate b0 b1 :=
        ⟨start, control, fun set => Bool.eq_false_iff.mpr fun h => ctl ⟨set, h⟩⟩
      obtain ⟨f, -, hrsv, hop, hform, hlen, hf⟩ := started.complete top
      obtain ⟨rfl, rfl, htail⟩ : f.b0 = b0 ∧ f.b1 = b1 ∧ f.tail ++ unmask f.mask f.payload =
          padTo ((formOf b1).size + 4 + leastLength b1 rest) rest := by
        simpa [ClientFrame.encode, ClientFrame.header] using hf
      have rsv : f.rsv1 = true → r.conn.deflate = true := by
        intro set
        by_contra off
        simp only [badStart, Bool.not_eq_true] at off start
        simp [off, f.b0_anyRsv.mpr set] at start
      have short : rest.length < (formOf f.b1).size + 4 + leastLength f.b1 rest := by
        by_contra long
        refine part f (rest.drop ((formOf f.b1).size + 4 + leastLength f.b1 rest)) rsv ?_
        rw [hf, hbuf, padTo_of_le (by omega), List.cons_append, List.cons_append,
          List.take_append_drop]
      obtain ⟨more, hmore⟩ := prefix_padTo short.le
      have missing : more ≠ [] := by
        rintro rfl
        have := congrArg List.length hmore
        rw [padTo_length, List.append_nil] at this
        omega
      have hf' : f.encode = r.conn.buf ++ more := by
        rw [hf, hbuf, ← hmore]
        rfl
      by_cases long : isControl f.opcode = false ∧ env.cfg.serverMax < f.payload.length
      · refine (wsFrame_long rsv hbuf (htail.trans hmore.symm) long.1 long.2).imp_right ?_
        rintro ⟨still, head⟩
        refine ⟨still, .inr ?_⟩
        rw [hbuf]
        refine ⟨start, control, .inr (.inr ⟨?_, ?_, ?_⟩)⟩
        · rwa [formOf_b1]
        · rw [f.b0_opcode]
          exact long.1
        · rw [← hlen]
          exact long.2
      · have fits : isControl f.opcode = false → f.payload.length ≤ env.cfg.serverMax :=
          fun data => Nat.le_of_not_lt fun beyond => long ⟨data, beyond⟩
        refine .inr ⟨wsFrame_part rsv fits missing hf', ?_⟩
        by_cases bad : f.rsv1 = true ∧ f.opcode ≠ kText ∧ f.opcode ≠ kBinary
        · refine .inr ?_
          rw [hbuf]
          refine ⟨start, control, .inl ⟨f.b0_rsv1.mpr bad.1, ?_⟩⟩
          rw [f.b0_opcode]
          exact bad.2
        · refine .inl ⟨f, more, ⟨fun set => ⟨rsv set, ?_⟩, fits⟩, missing, hf'⟩
          by_contra neither
          exact bad ⟨set, not_or.mp neither⟩

/-- A turn that takes no frame: it closes, or leaves a part of one or stuck bytes. -/
theorem wsFrame_rest
    (part : ∀ (f : ClientFrame) (rest : Bytes), (f.rsv1 = true → r.conn.deflate = true) →
      r.conn.buf ≠ f.encode ++ rest) :
    (∃ code, r.wsFrame env = (r.wsCloseConn env code, false)) ∨
      r.wsFrame env = (r, false) ∧ (Ws.Waits r.conn.deflate env.cfg.serverMax r.conn.buf ∨
        Stuck r.conn.deflate env.cfg.serverMax r.conn.buf) := by
  match hbuf : r.conn.buf with
  | [] => exact .inr ⟨by rw [wsFrame, hbuf], .inl (waits_nil ..)⟩
  | [b0] =>
      refine .inr ⟨by rw [wsFrame, hbuf], ?_⟩
      cases h : startsFrame r.conn.deflate b0 with
      | true => exact .inl (waits_first h)
      | false => exact .inr h
  | b0 :: b1 :: rest =>
      rw [← hbuf]
      cases start : badStart r.conn.deflate b0 b1 with
      | true => exact .inl ⟨1002, by rw [wsFrame_cons hbuf, if_pos start]⟩
      | false =>
          cases control : badControl b0 b1 with
          | true =>
              exact .inl ⟨1002, by rw [wsFrame_cons hbuf, if_neg (by simp [start]), if_pos control]⟩
          | false => exact (wsFrame_started hbuf start control part).imp (fun h => ⟨1009, h⟩) id

/-- The loop decodes the buffer as far as the session stays open, and leaves a part of a
frame or stuck bytes. -/
theorem wsFrames_decodes {fuel : Nat} (ok : r.InSession false) (live : r.shut = false)
    (enough : r.conn.buf.length < fuel) :
    (r.wsFrames env fuel).InSession false ∧ ((r.wsFrames env fuel).shut = true ∨
      ∃ g, Decodes r.conn.deflate env.cfg.serverMax r.gathered r.conn.buf g
          (r.wsFrames env fuel).conn.buf ∧
        (r.wsFrames env fuel).conn.deflate = r.conn.deflate ∧
        (Ws.Waits r.conn.deflate env.cfg.serverMax (r.wsFrames env fuel).conn.buf ∨
          Stuck r.conn.deflate env.cfg.serverMax (r.wsFrames env fuel).conn.buf)) := by
  induction fuel generalizing r with
  | zero => cases enough
  | succ fuel ih =>
      rw [wsFrames_open live]
      by_cases whole : ∃ (f : ClientFrame) (rest : Bytes),
          (f.rsv1 = true → r.conn.deflate = true) ∧ r.conn.buf = f.encode ++ rest
      · obtain ⟨f, rest, rsv, hbuf⟩ := whole
        have turn : Follows env false _ (r.wsFrame env) _ := session_wsFrame ok rsv hbuf
        generalize r.wsFrame env = res at turn ⊢
        cases hf : accept env.cfg.serverMax r.gathered f with
        | none =>
            rw [hf] at turn
            obtain ⟨off, ok', shut⟩ := turn
            rw [if_neg (by simp [off])]
            exact ⟨ok', .inl shut⟩
        | some verdict =>
            obtain ⟨outs, g₁⟩ := verdict
            rw [hf] at turn
            obtain ⟨on, -, ⟨ok', same⟩ | ⟨ok', shut, -⟩⟩ := turn
            · have fields := same
              simp only [session, Session.put, Session.mk.injEq] at fields
              obtain ⟨-, -, deflate, live', buf, gathered, -, -⟩ := fields
              have shorter : rest.length < fuel := by
                have := List.length_pos_of_ne_nil f.encode_ne_nil
                rw [hbuf, List.length_append] at enough
                omega
              have later := ih ok' (live'.trans live) (by rw [buf]; exact shorter)
              rw [deflate, gathered, buf] at later
              rw [if_pos on]
              refine ⟨later.1, later.2.imp_right ?_⟩
              rintro ⟨g, decodes, more⟩
              rw [hbuf]
              exact ⟨g, .took rsv hf decodes, more⟩
            · rw [if_pos on, wsFrames_shut fuel shut]
              exact ⟨ok', .inl shut⟩
      · have part : ∀ (f : ClientFrame) (rest : Bytes),
            (f.rsv1 = true → r.conn.deflate = true) → r.conn.buf ≠ f.encode ++ rest :=
          fun f rest rsv hbuf => whole ⟨f, rest, rsv, hbuf⟩
        rcases wsFrame_rest part with ⟨code, closed⟩ | ⟨still, left⟩
        · rw [closed, if_neg (by simp)]
          exact ⟨(wsCloseConn_shut ok code).1, .inl (wsCloseConn_shut ok code).2.1⟩
        · rw [still, if_neg (by simp)]
          exact ⟨ok, .inr ⟨r.gathered, .wait part, rfl, left⟩⟩

end Reactor

/-! ### Runs -/

/-- What a session waits on is short. -/
theorem Ws.Waits.length_lt {deflate : Bool} {cap : Nat} {buf : Bytes}
    (h : Ws.Waits deflate cap buf) : buf.length < 14 + max cap 125 := by
  obtain ⟨f, more, allowed, missing, hf⟩ := h
  have total := congrArg List.length hf
  rw [f.encode_length, f.header_length, List.length_append] at total
  have := List.length_pos_of_ne_nil missing
  have size : f.form.size ≤ 8 := by cases f.form <;> decide
  have payload : f.payload.length ≤ max cap 125 := by
    cases hc : isControl f.opcode with
    | false => exact (allowed.length hc).trans (le_max_left _ _)
    | true => exact (f.control_length hc).trans (le_max_right _ _)
  omega

/-- The bytes do not leave the decoder stuck. -/
def Reactor.Heeds (env : Env) (r : Reactor) (data : Bytes) : Prop :=
  ∀ g tail, Decodes r.conn.deflate env.cfg.serverMax r.gathered (r.conn.buf ++ data) g tail →
    ¬ Stuck r.conn.deflate env.cfg.serverMax tail

/-- No read leaves the decoder stuck; anything else may happen. -/
def heeds (env : Env) (r : Reactor) : Act → Prop
  | .read data => r.Heeds env data
  | _ => True

open Reactor in
/-- The invariant of a session: it is closing, or waits on a part of a frame. -/
theorem heeds_wsProcess {r : Reactor} (ok : r.InSession false) (heed : r.Heeds env []) :
    (r.wsProcess env).InSession false ∧ ((r.wsProcess env).shut = true ∨
      Ws.Waits (r.wsProcess env).conn.deflate env.cfg.serverMax (r.wsProcess env).conn.buf) := by
  unfold wsProcess
  cases live : r.shut with
  | true =>
      rw [wsFrames_shut _ live]
      exact ⟨ok, .inl live⟩
  | false =>
      obtain ⟨ok', result⟩ := wsFrames_decodes ok live (Nat.lt_succ_self _)
      refine ⟨ok', result.imp id fun ⟨g, decodes, deflate, left⟩ => ?_⟩
      rw [deflate]
      exact left.resolve_right (heed g _ (by rw [List.append_nil]; exact decodes))

open Reactor in
theorem heeds_step {r r' : Reactor} {a : Act} (ok : r.InSession false)
    (h : r.shut = true ∨ Ws.Waits r.conn.deflate env.cfg.serverMax r.conn.buf)
    (heed : heeds env r a) (hstep : step env r a = some r') :
    r'.InSession false ∧
      (r'.shut = true ∨ Ws.Waits r'.conn.deflate env.cfg.serverMax r'.conn.buf) := by
  by_cases read : ∃ data, a = .read data
  · obtain ⟨data, rfl⟩ := read
    simp only [step, Option.ite_none_right_eq_some, Option.some.injEq] at hstep
    obtain ⟨-, rfl⟩ := hstep
    rw [readCb_session ok]
    refine heeds_wsProcess (received_session ok data).1 fun g tail decodes => ?_
    rw [List.append_nil] at decodes
    exact heed g tail decodes
  · rcases session_step ok hstep (fun data h => read ⟨data, h⟩) (fun h => by cases h) with
      kept | ⟨ok', shut, -⟩
    · have fields := kept.same
      simp only [session, Session.mk.injEq] at fields
      obtain ⟨-, -, deflate, shut, buf, -, -, -⟩ := fields
      rw [shut, deflate, buf]
      exact ⟨kept.ok, h⟩
    · exact ⟨ok', .inl shut⟩

open Reactor in
/-- When no read leaves the decoder stuck, a session at every moment is closing or waits
on the beginning of a frame that its client may send, and its buffer is bounded. -/
theorem malformed_closes {r t : Reactor} (up : r.Upgraded) (first : r.Heeds env [])
    (run : Reaches (stepOf (step env)) (heeds env) (r.wsProcess env) t) :
    t.conn.wsClosing = true ∨ t.conn.closing = true ∨
      Ws.Waits t.conn.deflate env.cfg.serverMax t.conn.buf ∧
        t.conn.buf.length < 14 + max env.cfg.serverMax 125 := by
  obtain ⟨-, held⟩ := run.invariant
    (I := fun t => t.InSession false ∧
      (t.shut = true ∨ Ws.Waits t.conn.deflate env.cfg.serverMax t.conn.buf))
    (heeds_wsProcess up.session.relax first)
    (fun t a u ⟨ok, h⟩ heed hstep => heeds_step ok h heed hstep)
  rcases held with shut | waits
  · rcases shut_iff.mp shut with closing | closing
    · exact .inr (.inl closing)
    · exact .inl closing
  · exact .inr (.inr ⟨waits, waits.length_lt⟩)

/-- Fewer bytes than a frame has. -/
theorem Reactor.heeds_few {r : Reactor} {data : Bytes} (few : (r.conn.buf ++ data).length < 6)
    (ok : ¬ Stuck r.conn.deflate env.cfg.serverMax (r.conn.buf ++ data)) : r.Heeds env data := by
  intro g tail decodes
  generalize r.conn.buf ++ data = buf at few ok decodes
  cases decodes with
  | wait part => exact ok
  | @took _ _ _ f rest _ _ rsv accepted more =>
      rw [List.length_append, f.encode_length, f.header_length] at few
      omega

/-- The header of a text frame arrives byte by byte. -/
theorem malformed_closes_part :
    ∃ t, Reaches (stepOf (step sampleEnv)) (heeds sampleEnv) (sampleSession.wsProcess sampleEnv) t ∧
      t.conn.buf = [0x81, 0x85, 1] ∧
      Ws.Waits t.conn.deflate sampleEnv.cfg.serverMax t.conn.buf := by
  let r₀ := sampleSession.wsProcess sampleEnv
  let r₁ := r₀.readCb sampleEnv [0x81]
  let r₂ := r₁.readCb sampleEnv [0x85, 1]
  have step₁ : step sampleEnv r₀ (.read [0x81]) = some r₁ := by
    rw [step, if_pos (by decide +kernel)]
  have step₂ : step sampleEnv r₁ (.read [0x85, 1]) = some r₂ := by
    rw [step, if_pos (by decide +kernel)]
  have heed₁ : heeds sampleEnv r₀ (.read [0x81]) :=
    Reactor.heeds_few (r := r₀) (by decide +kernel) (by decide +kernel)
  have heed₂ : heeds sampleEnv r₁ (.read [0x85, 1]) :=
    Reactor.heeds_few (r := r₁) (by decide +kernel) (by decide +kernel)
  have run : Reaches (stepOf (step sampleEnv)) (heeds sampleEnv) r₀ r₂ :=
    .snoc (.snoc .refl heed₁ step₁) heed₂ step₂
  have first : sampleSession.Heeds sampleEnv [] :=
    Reactor.heeds_few (by decide +kernel) (by decide +kernel)
  refine ⟨r₂, run, by decide +kernel, ?_⟩
  rcases malformed_closes sampleSession_upgraded first run with closing | closing | ⟨waits, -⟩
  · exact absurd closing (by decide +kernel)
  · exact absurd closing (by decide +kernel)
  · exact waits

/-- An upgrade request. -/
def sampleUpgrade : Bytes :=
  ascii ("GET /ws HTTP/1.1\r\nHost: a\r\nConnection: Upgrade\r\nUpgrade: websocket\r\n" ++
    "Sec-WebSocket-Version: 13\r\nSec-WebSocket-Key: dGhlIHNhbXBsZSBub25jZQ==\r\n\r\n")

/-- A 64-bit length with its top bit set is never refused: the session stays open, and
keeps what comes after it. -/
theorem topBit_waits :
    ∃ t, exec (step sampleEnv) [.read sampleUpgrade,
        .read [0x82, 0xff, 0x80, 0, 0, 0, 0, 0, 0, 0, 1, 2, 3, 4], .read [5, 6]] sampleConn = some t ∧
      t.conn.ws = true ∧ t.conn.wsClosing = false ∧ t.conn.closing = false ∧
      t.conn.buf.length = 16 ∧ ¬ Ws.Waits t.conn.deflate sampleEnv.cfg.serverMax t.conn.buf := by
  obtain ⟨t, run, ws, wsClosing, closing, size, stuck⟩ := exec_any (f := step sampleEnv)
    (s := sampleConn)
    (p := fun t => t.conn.ws = true ∧ t.conn.wsClosing = false ∧ t.conn.closing = false ∧
      t.conn.buf.length = 16 ∧ Stuck t.conn.deflate sampleEnv.cfg.serverMax t.conn.buf)
    (show (exec _ [.read sampleUpgrade,
      .read [0x82, 0xff, 0x80, 0, 0, 0, 0, 0, 0, 0, 1, 2, 3, 4], .read [5, 6]] _).any _ = true by
      rw [sampleUpgrade, ascii_append, ascii_ofList, ascii_ofList]
      decide +kernel)
  exact ⟨t, run, ws, wsClosing, closing, size, stuck_not_waits stuck⟩

end NitroServer.Engine
