/-
What a session makes of the frames it is sent.

The abstract decoder works on whole frames: `accept` takes one frame in a state of
reassembly and says what goes out and what is gathered afterwards, or that the session
closes. The loop of `wsProcess` is this decoder on the buffer.

* `wsFrame_encode` — a turn on a buffer that begins with a whole frame handles it.
* `session_wsHandle` — handling a frame is `accept`.
* `wsFrame_part` — a turn on a part of a frame leaves everything as it is.
* `session_wsFrames` — whole frames are taken in order, and the part behind them is left.
-/

import NitroServer.Ws.Frames
import NitroServer.Lane.Machine

namespace NitroServer.Engine

open NitroServer.Lib

namespace Ws

/-! ### Accepting frames -/

/-- A message under reassembly. -/
structure Gathered where
  opcode : Nat
  compressed : Bool
  bytes : Bytes
deriving DecidableEq, Repr

/-- What goes out: a message to the runner, or a pong with the payload of a ping. -/
inductive Out where
  | message (m : Gathered)
  | pong (payload : Bytes)
deriving DecidableEq, Repr

/-- The size cap, and on the last fragment the UTF-8 check; `none` when the session
closes. -/
def Gathered.check (cap : Nat) (fin : Bool) (g : Gathered) : Option (List Out × Option Gathered) :=
  if cap < g.bytes.length then none
  else if !fin then some ([], some g)
  else if g.opcode = kText ∧ ¬ g.compressed ∧ ¬ validUtf8 g.bytes then none
  else some ([.message g], none)

/-- One frame. -/
def accept (cap : Nat) (s : Option Gathered) (f : ClientFrame) :
    Option (List Out × Option Gathered) :=
  if f.opcode = kPing then some ([.pong f.payload], s)
  else if f.opcode = kPong then some ([], s)
  else if f.opcode = kClose then none
  else if f.opcode = kText ∨ f.opcode = kBinary then
    match s with
    | some _ => none
    | none => Gathered.check cap f.fin ⟨f.opcode, f.rsv1, f.payload⟩
  else
    match s with
    | none => none
    | some g => Gathered.check cap f.fin { g with bytes := g.bytes ++ f.payload }

/-- Frames one after another. -/
def acceptAll (cap : Nat) : Option Gathered → List ClientFrame → Option (List Out × Option Gathered)
  | s, [] => some ([], s)
  | s, f :: fs => do
      let (outs, s) ← accept cap s f
      let (more, s) ← acceptAll cap s fs
      some (outs ++ more, s)

theorem acceptAll_append {cap : Nat} {s s₁ s₂ : Option Gathered} {fs gs : List ClientFrame}
    {outs more : List Out} (first : acceptAll cap s fs = some (outs, s₁))
    (second : acceptAll cap s₁ gs = some (more, s₂)) :
    acceptAll cap s (fs ++ gs) = some (outs ++ more, s₂) := by
  induction fs generalizing s outs with
  | nil =>
      obtain ⟨rfl, rfl⟩ : [] = outs ∧ s = s₁ := by simpa [acceptAll] using first
      exact second
  | cons f fs ih =>
      simp only [acceptAll, Option.bind_eq_bind, Option.bind_eq_some_iff, Option.some.injEq,
        Prod.exists, Prod.mk.injEq] at first
      obtain ⟨o, s', hf, o', s'', hrest, rfl, rfl⟩ := first
      simp [acceptAll, hf, ih hrest]

/-- Frames accepted in a row are accepted part by part. -/
theorem acceptAll_split {cap : Nat} {s s₂ : Option Gathered} {fs gs : List ClientFrame}
    {outs : List Out} (h : acceptAll cap s (fs ++ gs) = some (outs, s₂)) :
    ∃ first more s₁, acceptAll cap s fs = some (first, s₁) ∧
      acceptAll cap s₁ gs = some (more, s₂) ∧ outs = first ++ more := by
  induction fs generalizing s outs with
  | nil => exact ⟨[], outs, s, rfl, h, rfl⟩
  | cons f fs ih =>
      simp only [List.cons_append, acceptAll, Option.bind_eq_bind, Option.bind_eq_some_iff,
        Option.some.injEq, Prod.exists, Prod.mk.injEq] at h
      obtain ⟨o, s', hf, o', s'', hrest, rfl, rfl⟩ := h
      obtain ⟨first, more, s₁, hfirst, hmore, rfl⟩ := ih hrest
      exact ⟨o ++ first, more, s₁, by simp [acceptAll, hf, hfirst], hmore,
        (List.append_assoc ..).symm⟩

/-- A data frame over the cap is never accepted. -/
theorem accept_over {cap : Nat} {s : Option Gathered} {f : ClientFrame}
    (data : isControl f.opcode = false) (beyond : cap < f.payload.length) :
    accept cap s f = none := by
  have ping : f.opcode ≠ kPing := fun h => by simp [h, kPing, isControl] at data
  have pong : f.opcode ≠ kPong := fun h => by simp [h, kPong, isControl] at data
  have close : f.opcode ≠ kClose := fun h => by simp [h, kClose, isControl] at data
  unfold accept
  rw [if_neg ping, if_neg pong, if_neg close]
  split
  · cases s with
    | some g => rfl
    | none => exact if_pos beyond
  · cases s with
    | none => rfl
    | some g =>
        refine if_pos ?_
        rw [List.length_append]
        omega

/-! ### Frames a client may send -/

/-- RFC 7692 §6: RSV1 on the first frame of a data message only, when the extension is
negotiated. And the payload is within the message cap (a control frame's is short). -/
structure ClientFrame.Allowed (deflate : Bool) (cap : Nat) (f : ClientFrame) : Prop where
  rsv1 : f.rsv1 = true → deflate = true ∧ (f.opcode = kText ∨ f.opcode = kBinary)
  length : isControl f.opcode = false → f.payload.length ≤ cap

/-- The bytes are a beginning, not the whole, of a frame a client may send. -/
def Waits (deflate : Bool) (cap : Nat) (buf : Bytes) : Prop :=
  ∃ (f : ClientFrame) (more : Bytes), f.Allowed deflate cap ∧ more ≠ [] ∧ f.encode = buf ++ more

/-- Nothing in the buffer: anything may come. -/
theorem waits_nil (deflate : Bool) (cap : Nat) : Waits deflate cap [] := by
  let ping : ClientFrame :=
    ⟨true, false, kPing, .short, [0, 0, 0, 0], [], rfl, by decide, rfl, fun _ => ⟨rfl, rfl, rfl⟩⟩
  have allowed : ping.Allowed deflate cap :=
    ⟨fun set => absurd set Bool.false_ne_true, fun _ => Nat.zero_le _⟩
  exact ⟨ping, ping.encode, allowed, ping.encode_ne_nil, rfl⟩

end Ws

open Ws

/-! ### The session of a reactor -/

/-- A message handed to the runner. -/
def Ev.isWsMessage : Ev → Bool
  | .emitWsMessage .. => true
  | _ => false

/-- The first byte of a pong. -/
def Piece.isPong (p : Piece) : Bool := p.bytes.head? == some 0x8a

/-- The pongs a write puts on the wire. -/
def Ev.pongs : Ev → List Bytes
  | .write ps _ _ _ => (ps.filter Piece.isPong).map Piece.bytes
  | _ => []

/-- A write on a session that passes its cap. -/
def Ev.overSession (env : Env) : Ev → Bool
  | .write _ _ _ level =>
      decide (0 < env.cfg.wsMaxBufferBytes) && decide (env.cfg.wsMaxBufferBytes < level)
  | _ => false

/-- A session as its decoder sees it. -/
structure Session where
  id : Nat
  sink : Option Nat
  deflate : Bool
  shut : Bool
  buf : Bytes
  gathered : Option Gathered
  messages : List Ev
  pongs : List Bytes

namespace Reactor

/-- The message under reassembly. -/
def gathered (r : Reactor) : Option Gathered :=
  r.conn.wsMsgOpcode.map fun opcode => ⟨opcode, r.conn.wsMsgCompressed, r.conn.wsMsg⟩

/-- The session has started closing. -/
def shut (r : Reactor) : Bool := r.conn.closing || r.conn.wsClosing

def session (r : Reactor) : Session where
  id := r.conn.id
  sink := r.conn.wsEmitter
  deflate := r.conn.deflate
  shut := r.shut
  buf := r.conn.buf
  gathered := r.gathered
  messages := r.trace.filter Ev.isWsMessage
  pongs := r.trace.flatMap Ev.pongs

/-- What a session can rely on: nothing of HTTP is left under way, and a write that
finishes closes. On a `quiet` session none does. -/
structure InSession (quiet : Bool) (r : Reactor) : Prop where
  ws : r.conn.ws = true
  streaming : r.conn.streamingBody = false
  file : r.conn.file = none
  reqs : ∀ e ∈ r.reqLoc, e.2.connId ≠ r.conn.id
  queue : ∀ e ∈ r.queue, e.connId = r.conn.id → e.file = none ∧ e.piece.isPong = false ∧
    (e.finish = true → e.keepAlive = false ∧ quiet = false)
  writes : ∀ w ∈ r.conn.writes, w.finish = true → w.keepAlive = false ∧ quiet = false

/-- Between the two states a write passed the cap. -/
def Over (env : Env) (r r' : Reactor) : Prop :=
  ∃ ev ∈ r'.trace.drop r.trace.length, ev.overSession env = true

/-- Where an operation leads an open session: to the state `s`, or past the cap of its
outbound buffer, which closes it. -/
structure Leads (env : Env) (quiet : Bool) (r r' : Reactor) (s : Session) : Prop where
  trace : r.trace <+: r'.trace
  result : (r'.InSession quiet ∧ r'.session = s) ∨
    (r'.InSession false ∧ r'.shut = true ∧ Over env r r')

end Reactor

/-- What the runner is told. -/
def Ws.Out.events (sink : Option Nat) (id : Nat) : Out → List Ev
  | .message m => sink.toList.map fun sink =>
      .emitWsMessage sink id m.bytes m.opcode (if m.compressed then 1 else 0)
  | .pong _ => []

/-- What goes back to the client. -/
def Ws.Out.frames : Out → List Bytes
  | .message _ => []
  | .pong payload => [encodeFrame kPong payload true]

/-- The session after output, with what is gathered now. -/
def Session.put (s : Session) (outs : List Out) (g : Option Gathered) : Session :=
  { s with
    gathered := g
    messages := s.messages ++ outs.flatMap (Out.events s.sink s.id)
    pongs := s.pongs ++ outs.flatMap Out.frames }

/-! ### Writing on a session -/

theorem Ws.encodeFrame_head (opcode : Nat) (payload : Bytes) (fin : Bool) :
    (encodeFrame opcode payload fin).head? =
      some ((if fin then 0x80 else 0x00) ||| (opcode.toUInt8 &&& 0x0f)) := by
  unfold encodeFrame
  dsimp only
  split
  · rfl
  · split <;> rfl

variable {env : Env}

namespace Reactor

variable {quiet : Bool} {r r' r'' : Reactor}

theorem InSession.relax (h : r.InSession quiet) : r.InSession false :=
  ⟨h.ws, h.streaming, h.file, h.reqs,
    fun e he own => ⟨(h.queue e he own).1, (h.queue e he own).2.1,
      fun fin => ⟨((h.queue e he own).2.2 fin).1, rfl⟩⟩,
    fun w hw fin => ⟨(h.writes w hw fin).1, rfl⟩⟩

theorem Over.of_length (h : Over env r' r'') (le : r.trace.length ≤ r'.trace.length) :
    Over env r r'' := by
  obtain ⟨ev, hev, beyond⟩ := h
  exact ⟨ev, (List.drop_sublist_drop_left _ le).mem hev, beyond⟩

theorem Over.of_prefix (h : Over env r r') (more : r'.trace <+: r''.trace) : Over env r r'' := by
  obtain ⟨ev, hev, beyond⟩ := h
  obtain ⟨rest, hrest⟩ := more
  refine ⟨ev, ?_, beyond⟩
  rw [← hrest, List.drop_append]
  exact List.mem_append_left _ hev

theorem session_startAnswer (ps : List Piece) (ka fin : Bool) :
    (r.startAnswer env ps ka fin).session =
      { r.session with
        pongs := r.session.pongs ++ (ps.filter Piece.isPong).map Piece.bytes } := by
  simp [session, startAnswer, issueWrite, setConn, shut, gathered, Ev.isWsMessage, Ev.pongs]

theorem InSession.startAnswer (h : r.InSession quiet) {ps : List Piece} {ka fin : Bool}
    (closes : fin = true → ka = false ∧ quiet = false) :
    (r.startAnswer env ps ka fin).InSession quiet := by
  refine ⟨h.ws, h.streaming, h.file, h.reqs, h.queue, fun w hw hfin => ?_⟩
  rcases List.mem_append.mp hw with hw | hw
  · exact h.writes w hw hfin
  · rw [List.mem_singleton.mp hw] at hfin ⊢
    exact closes hfin

/-- Closing shuts the session. -/
theorem wsCloseConn_shut (h : r.InSession quiet) (code : Nat) :
    (r.wsCloseConn env code).InSession false ∧ (r.wsCloseConn env code).shut = true ∧
      r.trace <+: (r.wsCloseConn env code).trace := by
  unfold wsCloseConn
  split
  · rename_i closing
    exact ⟨h.relax, by simp [shut, closing], List.prefix_rfl⟩
  · refine ⟨InSession.startAnswer ?_ fun _ => ⟨rfl, rfl⟩, by simp [shut, startAnswer, issueWrite,
      setConn, emitTo, log], ?_⟩
    · exact ⟨h.ws, h.streaming, h.file, h.reqs, h.relax.queue, h.relax.writes⟩
    · exact (List.prefix_append _ _).trans (List.prefix_append _ _)

/-- A write on a session goes out, or passes the cap and closes it. -/
theorem writeAnswer_leads (h : r.InSession quiet) {ps : List Piece} {ka fin : Bool}
    (closes : fin = true → ka = false ∧ quiet = false) :
    Leads env quiet r (r.writeAnswer env ps ka fin) { r.session with
      pongs := r.session.pongs ++ (ps.filter Piece.isPong).map Piece.bytes } := by
  have ok : (r.startAnswer env ps ka fin).InSession quiet := h.startAnswer closes
  have wrote : r.trace ++ [.write ps ka fin (r.startAnswer env ps ka fin).conn.writePending] =
      (r.startAnswer env ps ka fin).trace := by
    simp [startAnswer, issueWrite, setConn, wireSize]
  have grown : r.trace <+: (r.startAnswer env ps ka fin).trace := ⟨_, wrote⟩
  unfold writeAnswer
  dsimp only
  split
  · rename_i beyond
    obtain ⟨shuts, shut, more⟩ := wsCloseConn_shut ok 1009
    have passed : Over env r (r.startAnswer env ps ka fin) := by
      refine ⟨.write ps ka fin (r.startAnswer env ps ka fin).conn.writePending, ?_, ?_⟩
      · rw [← wrote, List.drop_left]
        exact List.mem_singleton_self _
      · simpa [Ev.overSession] using ⟨beyond.2.2.1, beyond.2.2.2⟩
    exact ⟨grown.trans more, .inr ⟨shuts, shut, passed.of_prefix more⟩⟩
  · rw [if_neg (by simp [ok.ws])]
    exact ⟨grown, .inl ⟨ok, session_startAnswer ps ka fin⟩⟩

/-! ### Handling a frame -/

/-- A message that passed the checks goes to the runner. -/
theorem session_wsEmit (h : r.InSession quiet) (opcode : Nat) :
    Leads env quiet r (r.wsEmit opcode)
      (r.session.put [.message ⟨opcode, r.conn.wsMsgCompressed, r.conn.wsMsg⟩] none) := by
  refine ⟨(List.prefix_append _ _).trans (List.prefix_append _ _), .inl ⟨?_, ?_⟩⟩
  · exact ⟨h.ws, h.streaming, h.file, h.reqs, h.queue, h.writes⟩
  · cases hs : r.conn.wsEmitter <;>
      simp [session, wsEmit, Session.put, setConn, emitTo, log, hs, shut, gathered, Out.events,
        Out.frames, Ev.isWsMessage, Ev.pongs]

/-- A turn follows the decoder's verdict: the session closes, or goes on. -/
def Follows (env : Env) (quiet : Bool) (r : Reactor) (turn : Reactor × Bool) :
    Option (List Out × Option Gathered) → Prop
  | none => turn.2 = false ∧ turn.1.InSession false ∧ turn.1.shut = true
  | some (outs, g) => turn.2 = true ∧ Leads env quiet r turn.1 (r.session.put outs g)

/-- The checks on what is gathered. -/
theorem session_wsReassembled (h : r.InSession quiet) {fin : Bool} {opcode : Nat}
    (gathering : r.conn.wsMsgOpcode = some opcode) :
    Follows env quiet r (r.wsReassembled env fin opcode)
      (Gathered.check env.cfg.serverMax fin ⟨opcode, r.conn.wsMsgCompressed, r.conn.wsMsg⟩) := by
  by_cases beyond : env.cfg.serverMax < r.conn.wsMsg.length
  · simp only [wsReassembled, Gathered.check, if_pos beyond]
    exact ⟨rfl, (wsCloseConn_shut h 1009).1, (wsCloseConn_shut h 1009).2.1⟩
  · simp only [wsReassembled, Gathered.check, if_neg beyond]
    cases fin with
    | false =>
        refine ⟨rfl, List.prefix_rfl, .inl ⟨h, ?_⟩⟩
        simp [Session.put, session, gathered, gathering]
    | true =>
        simp only [Bool.not_true, Bool.false_eq_true, if_false]
        by_cases bad : opcode = kText ∧ ¬ r.conn.wsMsgCompressed ∧ ¬ validUtf8 r.conn.wsMsg
        · simp only [if_pos bad]
          exact ⟨rfl, (wsCloseConn_shut h 1007).1, (wsCloseConn_shut h 1007).2.1⟩
        · simp only [if_neg bad]
          exact ⟨rfl, session_wsEmit h opcode⟩

/-- What was gathered before does not matter to a verdict. -/
theorem Follows.of_session {turn : Reactor × Bool} {verdict : Option (List Out × Option Gathered)}
    (h : Follows env quiet r' turn verdict) (trace : r'.trace = r.trace)
    (same : ∀ g, { r'.session with gathered := g } = { r.session with gathered := g }) :
    Follows env quiet r turn verdict := by
  have beyond : Over env r' = Over env r := by
    funext t
    rw [Over, Over, trace]
  cases verdict with
  | none => exact h
  | some v =>
      obtain ⟨on, leads, result⟩ := h
      have put : r'.session.put v.1 v.2 = r.session.put v.1 v.2 := by
        have fields := same v.2
        simp only [Session.mk.injEq] at fields
        simp [Session.put, fields]
      rw [put, beyond] at result
      exact ⟨on, trace ▸ leads, result⟩

/-- A data frame or a continuation. -/
theorem session_wsData (h : r.InSession quiet) {f : ClientFrame}
    (data : f.opcode ≠ kPing ∧ f.opcode ≠ kPong ∧ f.opcode ≠ kClose) :
    Follows env quiet r (r.wsData env f.parsed f.payload)
      (accept env.cfg.serverMax r.gathered f) := by
  have closed : Follows env quiet r (r.wsCloseConn env 1002, false) none :=
    ⟨rfl, (wsCloseConn_shut h 1002).1, (wsCloseConn_shut h 1002).2.1⟩
  unfold accept wsData
  rw [if_neg data.1, if_neg data.2.1, if_neg data.2.2]
  by_cases first : f.opcode = kText ∨ f.opcode = kBinary
  · rw [if_pos first, if_pos (show f.parsed.opcode = kText ∨ f.parsed.opcode = kBinary from first)]
    cases hop : r.conn.wsMsgOpcode with
    | some opcode => simpa [gathered, hop] using closed
    | none =>
        simp only [gathered, hop, Option.map_none]
        refine Follows.of_session (session_wsReassembled ?_ rfl) rfl
          fun g => rfl
        exact ⟨h.ws, h.streaming, h.file, h.reqs, h.queue, h.writes⟩
  · rw [if_neg first,
      if_neg (show ¬ (f.parsed.opcode = kText ∨ f.parsed.opcode = kBinary) from first)]
    cases hop : r.conn.wsMsgOpcode with
    | none => simpa [gathered, hop] using closed
    | some opcode =>
        simp only [gathered, hop, Option.map_some]
        refine Follows.of_session (session_wsReassembled ?_ rfl) rfl
          fun g => rfl
        exact ⟨h.ws, h.streaming, h.file, h.reqs, h.queue, h.writes⟩

/-- Handling a frame is accepting it. -/
theorem session_wsHandle (h : r.InSession quiet) (f : ClientFrame) :
    Follows env quiet r (r.wsHandle env f.parsed f.payload)
      (accept env.cfg.serverMax r.gathered f) := by
  unfold wsHandle
  by_cases ping : f.opcode = kPing
  · have leads : Leads env quiet r (r.writeAnswer env
        [⟨.session, .raw, encodeFrame kPong f.payload true⟩] true false) _ :=
      writeAnswer_leads h (by simp)
    have isPong : Piece.isPong ⟨.session, .raw, encodeFrame kPong f.payload true⟩ = true := by
      rw [Piece.isPong, encodeFrame_head]
      rfl
    simp only [accept, if_pos ping, if_pos (show f.parsed.opcode = kPing from ping)]
    refine ⟨rfl, ?_⟩
    simpa [isPong, Session.put, Out.frames, Out.events, session, gathered] using leads
  · by_cases pong : f.opcode = kPong
    · simp only [accept, if_neg ping, if_pos pong, if_neg (show f.parsed.opcode ≠ kPing from ping),
        if_pos (show f.parsed.opcode = kPong from pong)]
      exact ⟨rfl, List.prefix_rfl, .inl ⟨h, by simp [Session.put, session]⟩⟩
    · by_cases close : f.opcode = kClose
      · simp only [accept, if_neg ping, if_neg pong, if_pos close,
          if_neg (show f.parsed.opcode ≠ kPing from ping),
          if_neg (show f.parsed.opcode ≠ kPong from pong),
          if_pos (show f.parsed.opcode = kClose from close)]
        exact ⟨rfl, (wsCloseConn_shut h _).1, (wsCloseConn_shut h _).2.1⟩
      · rw [if_neg (show f.parsed.opcode ≠ kPing from ping),
          if_neg (show f.parsed.opcode ≠ kPong from pong),
          if_neg (show f.parsed.opcode ≠ kClose from close)]
        exact session_wsData h ⟨ping, pong, close⟩

/-! ### One turn -/

/-- The session with another buffer. -/
def withBuf (r : Reactor) (buf : Bytes) : Reactor := r.setConn { r.conn with buf }

theorem InSession.withBuf (h : r.InSession quiet) (buf : Bytes) :
    (r.withBuf buf).InSession quiet :=
  ⟨h.ws, h.streaming, h.file, h.reqs, h.queue, h.writes⟩

/-- The turn on two bytes or more. -/
theorem wsFrame_cons {b0 b1 : UInt8} {rest : Bytes} (hbuf : r.conn.buf = b0 :: b1 :: rest) :
    r.wsFrame env =
      if badStart r.conn.deflate b0 b1 then (r.wsCloseConn env 1002, false)
      else if badControl b0 b1 then (r.wsCloseConn env 1002, false)
      else match parseHeader r.conn.buf r.conn.deflate with
        | none => (r, false)
        | some h =>
            if ¬ isControl h.opcode ∧ env.cfg.serverMax < h.length then
              (r.wsCloseConn env 1009, false)
            else if r.conn.buf.length < h.headerSize + h.length then (r, false)
            else (r.withBuf (r.conn.buf.drop (h.headerSize + h.length))).wsHandle env h
              (unmask h.mask ((r.conn.buf.drop h.headerSize).take h.length)) := by
  unfold wsFrame
  rw [hbuf]
  simp only [← hbuf]
  rfl

/-- A buffer that begins with a whole frame. -/
theorem wsFrame_encode {f : ClientFrame} {rest : Bytes}
    (rsv : f.rsv1 = true → r.conn.deflate = true) (hbuf : r.conn.buf = f.encode ++ rest) :
    r.wsFrame env =
      if ¬ isControl f.opcode ∧ env.cfg.serverMax < f.payload.length then
        (r.wsCloseConn env 1009, false)
      else (r.withBuf rest).wsHandle env f.parsed f.payload := by
  have shape : r.conn.buf = f.b0 :: f.b1 :: (f.tail ++ unmask f.mask f.payload ++ rest) := by
    rw [hbuf, ClientFrame.encode, ClientFrame.header]
    simp
  have header : parseHeader r.conn.buf r.conn.deflate = some f.parsed := by
    rw [hbuf, ClientFrame.encode, List.append_assoc]
    exact f.parseHeader_header rsv _
  have whole : ¬ r.conn.buf.length < f.header.length + f.payload.length := by
    rw [hbuf, List.length_append, f.encode_length]
    omega
  have payload : unmask f.mask ((r.conn.buf.drop f.header.length).take f.payload.length) =
      f.payload := by
    rw [hbuf, ClientFrame.encode, List.append_assoc, List.drop_left,
      List.take_left' (unmask_length _ _), unmask_unmask]
  have left : r.conn.buf.drop (f.header.length + f.payload.length) = rest := by
    rw [hbuf, ← f.encode_length, List.drop_left]
  obtain ⟨start, control⟩ := f.start_ok rsv
  unfold wsFrame
  split
  · rename_i b0 b1 more hcons
    rw [shape] at hcons
    obtain ⟨rfl, rfl, -⟩ : f.b0 = b0 ∧ f.b1 = b1 ∧ _ = more := by simpa using hcons
    rw [if_neg (by simp [start]), if_neg (by simp [control]), header]
    simp only [ClientFrame.parsed, if_neg whole, payload, left]
    rfl
  · rename_i short
    exact absurd shape (short _ _ _)

/-- A turn on a whole frame follows the decoder. -/
theorem session_wsFrame (h : r.InSession quiet) {f : ClientFrame} {rest : Bytes}
    (rsv : f.rsv1 = true → r.conn.deflate = true) (hbuf : r.conn.buf = f.encode ++ rest) :
    Follows env quiet (r.withBuf rest) (r.wsFrame env)
      (accept env.cfg.serverMax r.gathered f) := by
  rw [wsFrame_encode rsv hbuf]
  split
  · rename_i beyond
    rw [accept_over (by simpa using beyond.1) beyond.2]
    exact ⟨rfl, (wsCloseConn_shut h 1009).1, (wsCloseConn_shut h 1009).2.1⟩
  · exact session_wsHandle (h.withBuf rest) f

/-- A part of a frame is left in the buffer. -/
theorem wsFrame_part {f : ClientFrame} {more : Bytes}
    (rsv : f.rsv1 = true → r.conn.deflate = true)
    (fits : isControl f.opcode = false → f.payload.length ≤ env.cfg.serverMax)
    (missing : more ≠ []) (hbuf : f.encode = r.conn.buf ++ more) : r.wsFrame env = (r, false) := by
  obtain ⟨start, control⟩ := f.start_ok rsv
  unfold wsFrame
  split
  · rename_i b0 b1 rest hcons
    rw [hcons, ClientFrame.encode, ClientFrame.header] at hbuf
    obtain ⟨rfl, rfl, hrest⟩ : f.b0 = b0 ∧ f.b1 = b1 ∧
        f.tail ++ unmask f.mask f.payload = rest ++ more := by simpa using hbuf
    rw [if_neg (by simp [start]), if_neg (by simp [control])]
    have tails : f.tail <+: rest ++ more := ⟨_, hrest⟩
    rcases Nat.lt_or_ge rest.length f.tail.length with part | whole
    · obtain ⟨lacks, hlacks⟩ :=
        List.prefix_of_prefix_length_le (List.prefix_append rest more) tails part.le
      have : lacks ≠ [] := by
        rintro rfl
        simp [← hlacks] at part
      rw [hcons, f.parseHeader_part rsv hlacks this]
    · -- the header is whole, the payload is not
      obtain ⟨part, rfl⟩ :=
        List.prefix_of_prefix_length_le tails (List.prefix_append rest more) whole
      have header : parseHeader r.conn.buf r.conn.deflate = some f.parsed := by
        rw [hcons, ← List.cons_append, ← List.cons_append]
        exact f.parseHeader_header rsv part
      have short : r.conn.buf.length < f.header.length + f.payload.length := by
        have size := congrArg List.length hrest
        rw [List.length_append, List.length_append, List.length_append, unmask_length] at size
        have := List.length_pos_of_ne_nil missing
        rw [hcons, ClientFrame.header]
        simp only [List.length_cons, List.length_append]
        omega
      have within : ¬ (¬ isControl f.opcode ∧ env.cfg.serverMax < f.payload.length) :=
        fun beyond => absurd (fits (by simpa using beyond.1)) (Nat.not_le.mpr beyond.2)
      rw [header]
      exact (if_neg within).trans (if_pos short)
  · rfl

/-! ### The loop -/

theorem shut_iff : r.shut = true ↔ r.conn.closing = true ∨ r.conn.wsClosing = true := by
  simp [shut]

theorem wsFrames_shut (fuel : Nat) (h : r.shut = true) : r.wsFrames env fuel = r := by
  cases fuel with
  | zero => rfl
  | succ fuel => exact if_pos (shut_iff.mp h)

theorem wsFrames_open {fuel : Nat} (h : r.shut = false) :
    r.wsFrames env (fuel + 1) =
      if (r.wsFrame env).2 then (r.wsFrame env).1.wsFrames env fuel else (r.wsFrame env).1 := by
  have gate : ¬ (r.conn.closing = true ∨ r.conn.wsClosing = true) := by
    rw [← shut_iff, h]
    decide
  rw [wsFrames, if_neg gate]
  split <;> simp_all

/-- Whole frames are taken one after another, and the part behind them is left. -/
theorem session_wsFrames {fs : List ClientFrame} {tail : Bytes} {outs : List Out}
    {g : Option Gathered} {fuel : Nat} (h : r.InSession quiet) (open' : r.shut = false)
    (rsv : ∀ f ∈ fs, f.rsv1 = true → r.conn.deflate = true)
    (hbuf : r.conn.buf = fs.flatMap ClientFrame.encode ++ tail)
    (accepted : acceptAll env.cfg.serverMax r.gathered fs = some (outs, g))
    (waits : Ws.Waits r.conn.deflate env.cfg.serverMax tail) (enough : fs.length < fuel) :
    Leads env quiet r (r.wsFrames env fuel) ({ r.session with buf := tail }.put outs g) := by
  induction fs generalizing r outs fuel with
  | nil =>
      obtain ⟨fuel, rfl⟩ := Nat.exists_eq_succ_of_ne_zero (Nat.ne_zero_of_lt enough)
      obtain ⟨rfl, rfl⟩ : [] = outs ∧ r.gathered = g := by simpa [acceptAll] using accepted
      obtain ⟨f, more, allowed, missing, hf⟩ := waits
      have still : r.wsFrame env = (r, false) :=
        wsFrame_part (fun h => (allowed.rsv1 h).1) allowed.length missing (by simpa [hbuf] using hf)
      rw [wsFrames_open open', still]
      refine ⟨List.prefix_rfl, .inl ⟨h, ?_⟩⟩
      simp [Session.put, session, hbuf]
  | cons f fs ih =>
      obtain ⟨fuel, rfl⟩ := Nat.exists_eq_succ_of_ne_zero (Nat.ne_zero_of_lt enough)
      simp only [acceptAll, Option.bind_eq_bind, Option.bind_eq_some_iff, Option.some.injEq,
        Prod.exists, Prod.mk.injEq] at accepted
      obtain ⟨first, g₁, hf, rest, g₂, hrest, rfl, rfl⟩ := accepted
      rw [List.flatMap_cons, List.append_assoc] at hbuf
      have turn : Follows env quiet _ (r.wsFrame env) _ :=
        session_wsFrame h (rsv f List.mem_cons_self) hbuf
      rw [hf] at turn
      obtain ⟨on, trace, result⟩ := turn
      rw [wsFrames_open open', if_pos on]
      generalize hr' : (r.wsFrame env).1 = r' at on trace result ⊢
      change r.trace <+: r'.trace at trace
      rcases result with ⟨ok, same⟩ | ⟨ok, shut, beyond⟩
      · have fields := same
        simp only [session, Session.put, Session.mk.injEq] at fields
        obtain ⟨-, -, deflate, open'', buf, gathered, -, -⟩ := fields
        have later := ih ok (open''.trans open')
          (fun f' hf' => deflate ▸ rsv f' (List.mem_cons_of_mem _ hf')) buf
          (gathered ▸ hrest) (deflate ▸ waits) (Nat.lt_of_succ_lt_succ enough)
        refine ⟨trace.trans later.trace, ?_⟩
        rw [same] at later
        refine later.result.imp (fun ⟨ok, eq⟩ => ⟨ok, ?_⟩)
          fun ⟨ok, shut, beyond⟩ => ⟨ok, shut, beyond.of_length trace.length_le⟩
        rw [eq]
        simp [Session.put, session, withBuf, setConn, Reactor.shut]
      · rw [wsFrames_shut fuel shut]
        exact ⟨trace, .inr ⟨ok, shut, beyond⟩⟩

end Reactor

end NitroServer.Engine
