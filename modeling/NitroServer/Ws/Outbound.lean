/-
The frames a session puts on the wire.

`Reactor.frames` lists the frames handed to `uv_write`, `Reactor.waiting` those of the
inbox. `Adds r r' new` says that an operation writes the frames `new` and no other, and
leaves the inbox alone.

* `speaks_wsFrames` — the frames of a read: a close frame at most as the last.
* `adds_wsFrames` — a read of frames that ask for no answer writes none.
-/

import NitroServer.Ws.Decoder
import NitroServer.Lane.Refine

namespace NitroServer.Engine

open NitroServer.Lib Ws

variable {env : Env}

/-! ### Frames -/

/-- A frame of a session; every other piece is a part of a response. -/
def Piece.isFrame (p : Piece) : Bool := p.part == .raw

def Piece.isClose (p : Piece) : Bool :=
  p.isFrame && p.bytes.head?.any fun b => (b &&& 0x0f).toNat == kClose

/-- The frames of a write. -/
def Ev.frames : Ev → List Piece
  | .write ps _ _ _ => ps.filter Piece.isFrame
  | _ => []

/-- A close frame stands at the end only. -/
def ClosesLast (ps : List Piece) : Prop := ∀ p ∈ ps.dropLast, p.isClose = false

theorem closesLast_nil : ClosesLast [] := by simp [ClosesLast]

theorem closesLast_of_none {ps : List Piece} (h : ∀ p ∈ ps, p.isClose = false) : ClosesLast ps :=
  fun p hp => h p (List.mem_of_mem_dropLast hp)

theorem closesLast_of_one (p : Piece) : ClosesLast [p] := by simp [ClosesLast]

theorem ClosesLast.append {ps qs : List Piece} (hp : ∀ p ∈ ps, p.isClose = false)
    (hq : ClosesLast qs) : ClosesLast (ps ++ qs) := by
  intro p mem
  cases qs with
  | nil =>
      rw [List.append_nil] at mem
      exact hp p (List.mem_of_mem_dropLast mem)
  | cons q qs =>
      rw [List.dropLast_append_cons] at mem
      rcases List.mem_append.mp mem with mem | mem
      · exact hp p mem
      · exact hq p mem

theorem ClosesLast.of_append {ps qs : List Piece} (h : ClosesLast (ps ++ qs)) : ClosesLast qs := by
  intro p hp
  have more : qs ≠ [] := fun empty => by simp [empty] at hp
  refine h p ?_
  rw [List.dropLast_append_of_ne_nil more]
  exact List.mem_append_right _ hp

theorem ClosesLast.front {ps qs : List Piece} (h : ClosesLast (ps ++ qs)) (more : qs ≠ []) :
    ∀ p ∈ ps, p.isClose = false := by
  intro p hp
  refine h p ?_
  rw [List.dropLast_append_of_ne_nil more]
  exact List.mem_append_left _ hp

theorem closesLast_snoc {ps : List Piece} (h : ∀ p ∈ ps, p.isClose = false) (c : Piece) :
    ClosesLast (ps ++ [c]) :=
  .append h (closesLast_of_one c)

/-- What follows a close frame is nothing. -/
theorem ClosesLast.after {ps before after : List Piece} {c : Piece} (h : ClosesLast ps)
    (split : ps = before ++ c :: after) (close : c.isClose = true) : after = [] := by
  by_contra more
  have mem : c ∈ ps.dropLast := by
    rw [split, List.dropLast_append_cons, List.dropLast_cons_of_ne_nil more]
    exact List.mem_append_right _ List.mem_cons_self
  simp [h c mem] at close

/-- There is at most one. -/
theorem ClosesLast.once {ps : List Piece} (h : ClosesLast ps) :
    (ps.filter Piece.isClose).length ≤ 1 := by
  rcases List.eq_nil_or_concat ps with rfl | ⟨front, c, rfl⟩
  · simp
  · have none : front.filter Piece.isClose = [] :=
      List.filter_eq_nil_iff.mpr fun p hp => by
        simp [h p (by simpa using hp)]
    rw [List.concat_eq_append, List.filter_append, none, List.nil_append]
    exact List.length_filter_le _ _

namespace Reactor

/-- The frames handed to `uv_write`, in order. -/
def frames (r : Reactor) : List Piece := r.trace.flatMap Ev.frames

/-- The session's frames in the inbox. -/
def waiting (r : Reactor) : List Piece := (r.ownQueue.map Pending.piece).filter Piece.isFrame

/-- A close frame was written. -/
def saidClose (r : Reactor) : Bool := r.frames.any Piece.isClose

theorem saidClose_false {r : Reactor} (h : r.saidClose = false) :
    ∀ p ∈ r.frames, p.isClose = false := by
  simpa [saidClose] using h

/-- Exactly these frames are written; the inbox stays, and nobody becomes a session. -/
structure Adds (r r' : Reactor) (new : List Piece) : Prop where
  frames : r'.frames = r.frames ++ new
  queue : r'.ownQueue = r.ownQueue
  id : r'.conn.id = r.conn.id
  ws : r'.conn.ws = r.conn.ws
  sessions : r'.conn.id ∈ r'.wsConnLoop → r.conn.id ∈ r.wsConnLoop

variable {r r' r'' : Reactor} {new more : List Piece}

theorem Adds.refl (r : Reactor) : Adds r r [] :=
  ⟨(List.append_nil _).symm, rfl, rfl, rfl, fun mem => mem⟩

theorem Adds.trans (h : Adds r r' new) (h' : Adds r' r'' more) : Adds r r'' (new ++ more) :=
  ⟨by rw [h'.frames, h.frames, List.append_assoc], h'.queue.trans h.queue, h'.id.trans h.id,
    h'.ws.trans h.ws, fun mem => h.sessions (h'.sessions mem)⟩

theorem Adds.waiting (h : Adds r r' new) : r'.waiting = r.waiting := by
  rw [Reactor.waiting, h.queue, Reactor.waiting]

theorem adds_log {evs : List Ev} (h : evs.flatMap Ev.frames = []) : Adds r (r.log evs) [] :=
  ⟨by simp [Reactor.frames, log, h], rfl, rfl, rfl, id⟩

theorem adds_emitTo {sink : Option Nat} {evs : Nat → List Ev}
    (h : ∀ s, (evs s).flatMap Ev.frames = []) : Adds r (r.emitTo sink evs) [] := by
  cases sink with
  | none => exact adds_log rfl
  | some s => exact adds_log (h s)

theorem adds_startAnswer (ps : List Piece) (ka fin : Bool) :
    Adds r (r.startAnswer env ps ka fin) (ps.filter Piece.isFrame) :=
  ⟨by simp [Reactor.frames, startAnswer, issueWrite, setConn, Ev.frames], rfl, rfl, rfl, id⟩

theorem adds_closeConn : Adds r r.closeConn [] := by
  unfold closeConn
  split
  · exact .refl r
  · exact ⟨by simp [Reactor.frames, Ev.frames], rfl, rfl, rfl, id⟩

/-- The close frame of `wsCloseConn`. -/
def closeFrame (code : Nat) : Piece :=
  ⟨.session, .raw, encodeFrame kClose (beBytes (if code = 1005 then 1000 else code) 2) true⟩

theorem closeFrame_isClose (code : Nat) : (closeFrame code).isClose = true := by
  rw [Piece.isClose, closeFrame, encodeFrame_head]
  rfl

/-- `wsCloseConn` writes its close frame, unless the session is closing already. -/
theorem adds_wsCloseConn (code : Nat) :
    Adds r (r.wsCloseConn env code) (if r.conn.wsClosing then [] else [closeFrame code]) ∧
      (r.wsCloseConn env code).conn.wsClosing = true := by
  unfold wsCloseConn
  split
  · rename_i closing
    exact ⟨.refl r, closing⟩
  · refine ⟨?_, rfl⟩
    let r₁ : Reactor := { r with
      conn := { r.conn with wsClosing := true }
      wsConnLoop := r.wsConnLoop.filter (· ≠ r.conn.id) }
    have left : Adds r r₁ [] :=
      ⟨(List.append_nil _).symm, rfl, rfl, rfl, fun mem => List.mem_of_mem_filter mem⟩
    have told : Adds r₁ (r₁.emitTo r₁.conn.wsEmitter fun sink =>
        [.emitWsMessage sink r₁.conn.id [] kClose code]) [] := adds_emitTo fun _ => rfl
    exact (left.trans told).trans (adds_startAnswer [closeFrame code] false true)

/-- The unsent bytes after a write pass the cap of a session's outbound buffer. -/
def trips (env : Env) (r : Reactor) (ps : List Piece) : Bool :=
  decide (0 < env.cfg.wsMaxBufferBytes) &&
    decide (env.cfg.wsMaxBufferBytes <
      (r.conn.writePending + r.wireSize env (payloadBytes ps) : Nat))

/-- A write on a session: its frames, and behind them a close frame when they trip the
cap. -/
theorem adds_writeAnswer (ws : r.conn.ws = true) (ps : List Piece) (ka fin : Bool) :
    (Adds r (r.writeAnswer env ps ka fin) (ps.filter Piece.isFrame) ∧
      r.writeAnswer env ps ka fin = r.startAnswer env ps ka fin) ∨
      (r.trips env ps = true ∧ (r.writeAnswer env ps ka fin).conn.wsClosing = true ∧
        Adds r (r.writeAnswer env ps ka fin) (ps.filter Piece.isFrame ++ [closeFrame 1009])) := by
  have started : Adds r (r.startAnswer env ps ka fin) _ := adds_startAnswer ps ka fin
  have session : (r.startAnswer env ps ka fin).conn.ws = true := ws
  unfold writeAnswer
  dsimp only
  split
  · rename_i beyond
    obtain ⟨-, open', on, past⟩ := beyond
    obtain ⟨closes, closing⟩ := adds_wsCloseConn (r := r.startAnswer env ps ka fin) 1009
    rw [if_neg open'] at closes
    refine .inr ⟨?_, closing, started.trans closes⟩
    rw [trips, Bool.and_eq_true, decide_eq_true_eq, decide_eq_true_eq]
    exact ⟨on, past⟩
  · rw [if_neg (by simp [session])]
    exact .inl ⟨started, rfl⟩

/-! ### Frames of a client -/

/-- A turn that writes frames: a close frame is the last, and shuts the session. -/
structure Speaks (r r' : Reactor) (new : List Piece) : Prop where
  adds : Adds r r' new
  last : ClosesLast new
  shuts : (∃ p ∈ new, p.isClose = true) → r'.conn.wsClosing = true

theorem Speaks.silent (h : Adds r r' []) : Speaks r r' [] :=
  ⟨h, closesLast_nil, by simp⟩

theorem speaks_wsCloseConn (code : Nat) : ∃ new, Speaks r (r.wsCloseConn env code) new := by
  obtain ⟨adds, closing⟩ := adds_wsCloseConn (r := r) code
  refine ⟨_, adds, ?_, fun _ => closing⟩
  split
  · exact closesLast_nil
  · exact closesLast_of_one _

/-- A frame that is no close, and possibly the end of the session. -/
theorem speaks_writeAnswer (ws : r.conn.ws = true) {p : Piece} (plain : p.isClose = false)
    (ka fin : Bool) : ∃ new, Speaks r (r.writeAnswer env [p] ka fin) new := by
  have none : ∀ q ∈ [p].filter Piece.isFrame, q.isClose = false := by
    intro q hq
    rw [List.mem_singleton.mp (List.mem_of_mem_filter hq)]
    exact plain
  rcases adds_writeAnswer ws [p] ka fin with ⟨adds, -⟩ | ⟨-, closing, adds⟩
  · refine ⟨_, adds, closesLast_of_none none, fun ⟨q, hq, close⟩ => ?_⟩
    exact absurd close (by simp [none q hq])
  · exact ⟨_, adds, closesLast_snoc none _, fun _ => closing⟩

theorem adds_wsEmit (opcode : Nat) : Adds r (r.wsEmit opcode) [] := by
  have told : Adds r ((r.log [.track r.conn.id r.conn.wsMsg]).emitTo r.conn.wsEmitter fun sink =>
      [.emitWsMessage sink r.conn.id r.conn.wsMsg opcode
        (if r.conn.wsMsgCompressed then 1 else 0)]) ([] ++ []) :=
    (adds_log rfl).trans (adds_emitTo fun _ => rfl)
  exact ⟨told.frames, told.queue, told.id, told.ws, told.sessions⟩

theorem adds_setConn {c : Conn} (id : c.id = r.conn.id) (ws : c.ws = r.conn.ws) :
    Adds r (r.setConn c) [] := by
  refine ⟨(List.append_nil _).symm, ?_, id, ws, fun mem => by rw [← id]; exact mem⟩
  change r.queue.filter _ = r.queue.filter _
  rw [show (r.setConn c).conn.id = r.conn.id from id]

theorem adds_withBuf (buf : Bytes) : Adds r (r.withBuf buf) [] := adds_setConn rfl rfl

theorem speaks_wsReassembled (fin : Bool) (opcode : Nat) :
    ∃ new, Speaks r (r.wsReassembled env fin opcode).1 new := by
  unfold wsReassembled
  split
  · exact speaks_wsCloseConn 1009
  · split
    · exact ⟨[], .silent (.refl r)⟩
    · split
      · exact speaks_wsCloseConn 1007
      · exact ⟨[], .silent (adds_wsEmit opcode)⟩

/-- Silence first changes nothing. -/
theorem speaks_of_silent (h : Adds r r' []) (h' : ∃ new, Speaks r' r'' new) :
    ∃ new, Speaks r r'' new := by
  obtain ⟨new, speaks⟩ := h'
  exact ⟨new, h.trans speaks.adds, speaks.last, speaks.shuts⟩

theorem speaks_wsData (h : FrameHeader) (payload : Bytes) :
    ∃ new, Speaks r (r.wsData env h payload).1 new := by
  unfold wsData
  split
  · split
    · exact speaks_wsCloseConn 1002
    · refine speaks_of_silent ?_ (speaks_wsReassembled _ _)
      exact adds_setConn rfl rfl
  · split
    · exact speaks_wsCloseConn 1002
    · refine speaks_of_silent ?_ (speaks_wsReassembled _ _)
      exact adds_setConn rfl rfl

theorem speaks_wsHandle (ws : r.conn.ws = true) (h : FrameHeader) (payload : Bytes) :
    ∃ new, Speaks r (r.wsHandle env h payload).1 new := by
  unfold wsHandle
  split
  · refine speaks_writeAnswer ws ?_ true false
    rw [Piece.isClose, encodeFrame_head]
    rfl
  · split
    · exact ⟨[], .silent (.refl r)⟩
    · split
      · exact speaks_wsCloseConn _
      · exact speaks_wsData h payload

theorem speaks_wsFrame (ws : r.conn.ws = true) : ∃ new, Speaks r (r.wsFrame env).1 new := by
  unfold wsFrame
  split
  · split
    · exact speaks_wsCloseConn 1002
    · split
      · exact speaks_wsCloseConn 1002
      · split
        · exact ⟨[], .silent (.refl r)⟩
        · split
          · exact speaks_wsCloseConn 1009
          · split
            · exact ⟨[], .silent (.refl r)⟩
            · refine speaks_of_silent ?_ (speaks_wsHandle ?_ _ _)
              · exact adds_setConn rfl rfl
              · exact ws
  · exact ⟨[], .silent (.refl r)⟩

/-- The loop stops with the close frame. -/
theorem speaks_wsFrames (fuel : Nat) (ws : r.conn.ws = true) :
    ∃ new, Speaks r (r.wsFrames env fuel) new := by
  induction fuel generalizing r with
  | zero => exact ⟨[], .silent (.refl r)⟩
  | succ fuel ih =>
      unfold wsFrames
      split
      · exact ⟨[], .silent (.refl r)⟩
      · obtain ⟨first, speaks⟩ := speaks_wsFrame ws
        split
        · rename_i r' heq
          rw [heq] at speaks
          by_cases closes : ∃ p ∈ first, p.isClose = true
          · rw [wsFrames_shut fuel (shut_iff.mpr (.inr (speaks.shuts closes)))]
            exact ⟨first, speaks⟩
          · have none : ∀ p ∈ first, p.isClose = false := by simpa using closes
            obtain ⟨more, later⟩ := ih (speaks.adds.ws.trans ws)
            refine ⟨first ++ more, speaks.adds.trans later.adds, .append none later.last, ?_⟩
            rintro ⟨p, hp, close⟩
            rcases List.mem_append.mp hp with hp | hp
            · simp [none p hp] at close
            · exact later.shuts ⟨p, hp, close⟩
        · rename_i r' heq
          rw [heq] at speaks
          exact ⟨first, speaks⟩

/-! ### Frames that ask for no answer -/

end Reactor

namespace Ws

/-- What the session gathers after a whole frame that gets no answer; a ping, a close and a
frame that does not fit what was gathered get one. -/
def heard (cap : Nat) (g : Option Gathered) (h : FrameHeader) (payload : Bytes) :
    Option (Option Gathered) :=
  if h.opcode = kPing ∨ h.opcode = kClose then none
  else if h.opcode = kPong then some g
  else if h.opcode = kText ∨ h.opcode = kBinary then
    match g with
    | some _ => none
    | none => (Gathered.check cap h.fin ⟨h.opcode, h.rsv1, payload⟩).map Prod.snd
  else
    match g with
    | none => none
    | some m => (Gathered.check cap h.fin { m with bytes := m.bytes ++ payload }).map Prod.snd

/-- The buffer holds a frame the engine answers: a violation, or a whole frame that is not
only heard. -/
def asks (deflate : Bool) (cap : Nat) : Nat → Option Gathered → Bytes → Bool
  | fuel + 1, g, b0 :: b1 :: rest =>
      badStart deflate b0 b1 || badControl b0 b1 ||
        match parseHeader (b0 :: b1 :: rest) deflate with
        | none => false
        | some h =>
            if ¬ isControl h.opcode ∧ cap < h.length then true
            else if (b0 :: b1 :: rest).length < h.headerSize + h.length then false
            else
              let buf := (b0 :: b1 :: rest).drop h.headerSize
              match heard cap g h (unmask h.mask (buf.take h.length)) with
              | none => true
              | some g' => asks deflate cap fuel g' ((b0 :: b1 :: rest).drop (h.headerSize + h.length))
  | _, _, _ => false

end Ws

namespace Reactor

variable {r r' r'' : Reactor} {new more : List Piece}

/-- What a frame that is only heard leaves. -/
structure Hears (r r' : Reactor) (g : Option Gathered) : Prop where
  adds : Adds r r' []
  gathered : r'.gathered = g
  deflate : r'.conn.deflate = r.conn.deflate
  buf : r'.conn.buf = r.conn.buf

theorem hears_wsReassembled {fin : Bool} {m : Gathered} {g : Option Gathered}
    (now : r.gathered = some m)
    (ok : (Gathered.check env.cfg.serverMax fin m).map Prod.snd = some g) :
    ∃ r', r.wsReassembled env fin m.opcode = (r', true) ∧ Hears r r' g := by
  obtain ⟨opcode, hop, rfl⟩ := Option.map_eq_some_iff.mp now
  unfold Gathered.check at ok
  unfold wsReassembled
  dsimp only at ok ⊢
  split at ok
  · cases ok
  · rename_i within
    rw [if_neg within]
    split at ok
    · rename_i open'
      rw [if_pos open']
      exact ⟨r, rfl, .refl r, now.trans (by simpa using ok), rfl, rfl⟩
    · rename_i last
      rw [if_neg last]
      split at ok
      · cases ok
      · rename_i text
        rw [if_neg text]
        exact ⟨_, rfl, adds_wsEmit opcode, Option.some.inj ok, rfl, rfl⟩

theorem Hears.after {g : Option Gathered} (h' : Hears r' r'' g) (h : Adds r r' [])
    (deflate : r'.conn.deflate = r.conn.deflate) (buf : r'.conn.buf = r.conn.buf) : Hears r r'' g :=
  ⟨h.trans h'.adds, h'.gathered, h'.deflate.trans deflate, h'.buf.trans buf⟩

theorem hears_wsHandle {h : FrameHeader} {payload : Bytes} {g : Option Gathered}
    (ok : heard env.cfg.serverMax r.gathered h payload = some g) :
    ∃ r', r.wsHandle env h payload = (r', true) ∧ Hears r r' g := by
  unfold heard at ok
  split at ok
  · cases ok
  · rename_i quiet
    unfold wsHandle
    rw [if_neg fun ping => quiet (.inl ping)]
    split at ok
    · rename_i pong
      rw [if_pos pong]
      exact ⟨r, rfl, .refl r, Option.some.inj ok, rfl, rfl⟩
    · rename_i pong
      rw [if_neg pong, if_neg fun close => quiet (.inr close)]
      unfold wsData
      split at ok
      · rename_i data
        rw [if_pos data]
        split at ok
        · cases ok
        · rename_i empty
          have idle : r.conn.wsMsgOpcode = none := Option.map_eq_none_iff.mp empty
          rw [idle]
          dsimp only
          obtain ⟨r', eq, hears⟩ := hears_wsReassembled (r := r.setConn { r.conn with
            wsMsgOpcode := some h.opcode, wsMsgCompressed := h.rsv1, wsMsg := payload }) rfl ok
          exact ⟨r', eq, hears.after (adds_setConn rfl rfl) rfl rfl⟩
      · rename_i data
        rw [if_neg data]
        split at ok
        · cases ok
        · rename_i m now
          obtain ⟨opcode, hop, rfl⟩ := Option.map_eq_some_iff.mp now
          rw [hop]
          dsimp only
          obtain ⟨r', eq, hears⟩ := hears_wsReassembled
            (r := r.setConn { r.conn with wsMsg := r.conn.wsMsg ++ payload })
            (show _ = some _ by rw [gathered]; exact congrArg (Option.map _) hop) ok
          exact ⟨r', eq, hears.after (adds_setConn rfl rfl) rfl rfl⟩

/-- A turn on bytes that ask for no answer: it ends the loop, or takes a frame. -/
theorem wsFrame_quiet {fuel : Nat}
    (quiet : asks r.conn.deflate env.cfg.serverMax (fuel + 1) r.gathered r.conn.buf = false) :
    r.wsFrame env = (r, false) ∨ ∃ r', r.wsFrame env = (r', true) ∧ Adds r r' [] ∧
      asks r'.conn.deflate env.cfg.serverMax fuel r'.gathered r'.conn.buf = false := by
  match hbuf : r.conn.buf with
  | [] | [_] => exact .inl (by rw [wsFrame, hbuf])
  | b0 :: b1 :: rest =>
      rw [hbuf, asks, Bool.or_eq_false_iff, Bool.or_eq_false_iff] at quiet
      obtain ⟨⟨start, control⟩, quiet⟩ := quiet
      rw [wsFrame_cons hbuf, if_neg (by simp [start]), if_neg (by simp [control]), hbuf]
      cases hh : parseHeader (b0 :: b1 :: rest) r.conn.deflate with
      | none => exact .inl rfl
      | some h =>
          rw [hh] at quiet
          dsimp only at quiet ⊢
          by_cases beyond : ¬ isControl h.opcode ∧ env.cfg.serverMax < h.length
          · rw [if_pos beyond] at quiet
            cases quiet
          · rw [if_neg beyond] at quiet ⊢
            by_cases short : (b0 :: b1 :: rest).length < h.headerSize + h.length
            · exact .inl (if_pos short)
            · rw [if_neg short] at quiet ⊢
              right
              split at quiet
              · cases quiet
              · rename_i g ok
                obtain ⟨r', eq, hears⟩ := hears_wsHandle
                  (r := r.withBuf ((b0 :: b1 :: rest).drop (h.headerSize + h.length))) ok
                refine ⟨r', eq, ?_, ?_⟩
                · exact (adds_withBuf _).trans hears.adds
                · rw [hears.deflate, hears.gathered, hears.buf]
                  exact quiet

/-- A read that asks for no answer gets none. -/
theorem adds_wsFrames {fuel : Nat}
    (quiet : asks r.conn.deflate env.cfg.serverMax fuel r.gathered r.conn.buf = false) :
    Adds r (r.wsFrames env fuel) [] := by
  induction fuel generalizing r with
  | zero => exact .refl r
  | succ fuel ih =>
      unfold wsFrames
      split
      · exact .refl r
      · rcases wsFrame_quiet quiet with still | ⟨r', eq, adds, quiet'⟩
        · rw [still]
          exact .refl r
        · rw [eq]
          exact adds.trans (ih quiet')

end Reactor

end NitroServer.Engine
