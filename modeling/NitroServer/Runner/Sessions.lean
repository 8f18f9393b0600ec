/-
The WebSocket sessions of the runner (`_WsSessionImpl`, `_deliverWs`, `_onWsMessage`): what a
handler gets to read.

* `deliverWs_cases` — a frame for an open session is one more message, or it closes the session.
* `SameWs`, `move_cases` — what the rest of the runner leaves alone.
* `session_accounts` — in every run the messages of a session are its frames, decoded, up to the
  one that closed it; what is not read yet is counted and bounded; at most one close goes out.
-/

import NitroServer.Runner.Moves

namespace NitroServer.Runner

open Api (utf8Decode)
open Engine (Bytes)
open Lib

variable {U : UserCode}

/-! ### One frame -/

/-- The message that a frame carries; none when it is a close, or cannot be decoded. -/
def Frame.message (host : Host U) (frame : Frame) : Option WsMessage :=
  let bytes :=
    if frame.aux = 1 then
      match host.inflate frame.bytes host.wsMaxBufferBytes with
      | .bytes bytes => some bytes
      | _ => none
    else some frame.bytes
  if frame.kind = 8 then none
  else if frame.kind = 1 then bytes.bind fun bytes => (utf8Decode bytes).map .text
  else bytes.map .binary

namespace Session

def hear (session : Session) (frame : Frame) : Session :=
  { session with offered := session.offered ++ [frame] }

def add (session : Session) (message : WsMessage) : Session :=
  { session with
    messages := session.messages ++ [message]
    inboundBuffered := session.inboundBuffered + message.size }

def finish (session : Session) (code : Int) : Session :=
  { session with done := true, closeCode := some code }

/-- `_shutdown`. -/
def abandon (session : Session) : Session :=
  if session.done then session
  else { session with done := true, closeCode := session.closeCode.orElse fun _ => some 1006 }

end Session

namespace Machine

variable {host : Host U} {s t u : Machine U} {i : Nat} {session : Session} {frame : Frame}

/-- The session `i` is closed, and its close goes out. -/
def shut (s : Machine U) (i : Nat) (session : Session) (code : Int) : Machine U :=
  { s with
    sessions := s.sessions.set i (session.finish code)
    wsSessions := s.wsSessions.erase session.id
    wsAcked := s.wsAcked.erase session.id }.emit (.wsClose i session.id code)

theorem finish_open (found : s.sessions[i]? = some session) (open_ : session.done = false)
    (code : Int) : s.finish i code = s.shut i session code := by
  rw [finish, found]
  dsimp only
  rw [if_neg (by simp [open_])]
  rfl

theorem finish_done (found : s.sessions[i]? = some session) (done : session.done = true)
    (code : Int) : s.finish i code = s := by
  rw [finish, found]
  dsimp only
  rw [if_pos done]

theorem finish_none (none_ : s.sessions[i]? = none) (code : Int) : s.finish i code = s := by
  rw [finish, none_]

theorem modify_found {l : List Session} (found : l[i]? = some session) (f : Session → Session) :
    l.modify i f = l.set i (f session) := by
  refine List.ext_getElem? fun k => ?_
  rw [List.getElem?_modify, List.getElem?_set]
  by_cases same : i = k
  · subst same
    obtain ⟨inside, here⟩ := List.getElem?_eq_some_iff.mp found
    simp [inside, here]
  · simp [same]

/-- The state after a frame is noted for a session. -/
def noted (s : Machine U) (i : Nat) (session : Session) (frame : Frame) : Machine U :=
  { s with sessions := s.sessions.set i (session.hear frame) }

theorem noteOffered_found (found : s.sessions[i]? = some session) (frame : Frame) :
    s.noteOffered i frame = s.noted i session frame := by
  rw [noteOffered, modify_found found]
  rfl

theorem noted_found (found : s.sessions[i]? = some session) (frame : Frame) :
    (s.noted i session frame).sessions[i]? = some (session.hear frame) := by
  have inside : i < s.sessions.length := (List.getElem?_eq_some_iff.mp found).1
  exact List.getElem?_set_self inside

theorem shut_noted (s : Machine U) (i : Nat) (session : Session) (frame : Frame) (code : Int) :
    (s.noted i session frame).shut i (session.hear frame) code =
      s.shut i (session.hear frame) code := by
  rw [shut, shut, noted]
  simp only [List.set_set]

/-- What a frame makes of an open session: one more message, or its end. -/
inductive Outcome (host : Host U) (s : Machine U) (i : Nat) (session : Session) (frame : Frame) :
    Machine U → Prop where
  | message {m : WsMessage} : frame.message host = some m →
      session.inboundBuffered + m.size ≤ host.wsMaxBufferBytes →
      Outcome host s i session frame
        { s with sessions := s.sessions.set i ((session.hear frame).add m) }
  | closed (code : Int) : Outcome host s i session frame (s.shut i (session.hear frame) code)

theorem deliverWs_cases (found : s.sessions[i]? = some session) (open_ : session.done = false)
    (frame : Frame) : Outcome host s i session frame (s.deliverWs host i frame) := by
  have here := noted_found found frame
  have ended (code : Int) :
      Outcome host s i session frame ((s.noted i session frame).finish i code) := by
    rw [finish_open here open_, shut_noted]
    exact .closed code
  have added {m : WsMessage} (reads : frame.message host = some m) :
      Outcome host s i session frame ((s.noted i session frame).addMessage host i m) := by
    rw [addMessage, here]
    dsimp only
    rw [if_neg (by rw [Session.hear, open_]; exact Bool.false_ne_true)]
    split
    · exact ended 1009
    · rename_i fits
      rw [noted, List.set_set]
      exact .message reads (Nat.not_lt.mp fits)
  have payload (bytes : Bytes)
      (reads : frame.message host =
        if frame.kind = 1 then (utf8Decode bytes).map .text else some (.binary bytes)) :
      Outcome host s i session frame
        ((s.noted i session frame).deliverPayload host i frame.kind bytes) := by
    rw [deliverPayload]
    split
    · rename_i text
      rw [if_pos text] at reads
      split
      · rename_i units decoded
        exact added (by rw [reads, decoded]; rfl)
      · exact ended 1007
    · rename_i binary
      rw [if_neg binary] at reads
      exact added reads
  rw [deliverWs, noteOffered_found found]
  split
  · exact ended frame.aux
  · rename_i plain
    split
    · rename_i deflated
      split
      · rename_i bytes inflated
        refine payload bytes ?_
        rw [Frame.message, if_neg plain, if_pos deflated, inflated]
        rfl
      · exact ended 1009
      · exact ended 1007
    · rename_i whole
      refine payload frame.bytes ?_
      rw [Frame.message, if_neg plain, if_neg whole]
      rfl

/-- A frame for a session that is over is only noted. -/
theorem deliverWs_done (found : s.sessions[i]? = some session) (done : session.done = true)
    (frame : Frame) : s.deliverWs host i frame = s.noted i session frame := by
  have here := noted_found found frame
  have ended (code : Int) : (s.noted i session frame).finish i code = s.noted i session frame :=
    finish_done here done code
  have added (m : WsMessage) :
      (s.noted i session frame).addMessage host i m = s.noted i session frame := by
    rw [addMessage, here]
    dsimp only
    rw [if_pos (by exact done)]
  have payload (bytes : Bytes) :
      (s.noted i session frame).deliverPayload host i frame.kind bytes =
        s.noted i session frame := by
    rw [deliverPayload]
    split
    · split
      · exact added _
      · exact ended 1007
    · exact added _
  rw [deliverWs, noteOffered_found found]
  split
  · exact ended frame.aux
  split
  · split
    · exact payload _
    · exact ended 1009
    · exact ended 1007
  · exact payload frame.bytes

/-! ### Frames in a row -/

/-- The frames `heard` are delivered to the session `i`, which becomes `after`. -/
structure Played (i : Nat) (session after : Session) (heard : List Frame) (s t : Machine U) :
    Prop where
  sessions : t.sessions = s.sessions.set i after
  id : after.id = session.id
  phase : after.phase = session.phase
  offered : after.offered = session.offered ++ heard
  live : after.done = false → session.done = false ∧ t.wsSessions = s.wsSessions
  others : ∀ id, id ≠ session.id → t.wsSessions.find id = s.wsSessions.find id
  wsOpened : t.wsOpened = s.wsOpened
  wsEarly : t.wsEarly = s.wsEarly
  closed : t.closed = s.closed
  out : ∃ os, t.out = s.out ++ os ∧ ∀ o ∈ os, ∃ code, o = .wsClose i session.id code

theorem Played.refl (found : s.sessions[i]? = some session) : Played i session session [] s s := by
  obtain ⟨inside, here⟩ := List.getElem?_eq_some_iff.mp found
  have same : s.sessions = s.sessions.set i session := by
    rw [← here]
    exact (List.set_getElem_self inside).symm
  exact ⟨same, rfl, rfl, (List.append_nil _).symm, fun open_ => ⟨open_, rfl⟩, fun _ _ => rfl, rfl,
    rfl, rfl, [], (List.append_nil _).symm, fun o mem => by cases mem⟩

theorem Played.trans {after last : Session} {heard more : List Frame}
    (first : Played i session after heard s t) (second : Played i after last more t u) :
    Played i session last (heard ++ more) s u := by
  obtain ⟨os, outs, only⟩ := first.out
  obtain ⟨os', outs', only'⟩ := second.out
  refine ⟨?_, second.id.trans first.id, second.phase.trans first.phase, ?_, fun open_ => ?_,
    fun id other => ?_, second.wsOpened.trans first.wsOpened, second.wsEarly.trans first.wsEarly,
    second.closed.trans first.closed, os ++ os', ?_, fun o mem => ?_⟩
  · rw [second.sessions, first.sessions, List.set_set]
  · rw [second.offered, first.offered, List.append_assoc]
  · obtain ⟨alive, same⟩ := second.live open_
    obtain ⟨alive', same'⟩ := first.live alive
    exact ⟨alive', same.trans same'⟩
  · rw [second.others id (first.id.symm ▸ other), first.others id other]
  · rw [outs', outs, List.append_assoc]
  · rcases List.mem_append.mp mem with old | new
    · exact only o old
    · exact first.id ▸ only' o new

theorem Played.found {after : Session} {heard : List Frame}
    (h : Played i session after heard s t) (found : s.sessions[i]? = some session) :
    t.sessions[i]? = some after := by
  rw [h.sessions]
  exact List.getElem?_set_self (List.getElem?_eq_some_iff.mp found).1

theorem played_shut (s : Machine U) (i : Nat) {session last : Session} {heard : List Frame}
    (shape : last = { session with offered := session.offered ++ heard }) (code : Int) :
    Played i session (last.finish code) heard s (s.shut i last code) := by
  subst shape
  refine ⟨rfl, rfl, rfl, rfl, fun open_ => (by cases open_), fun id other => ?_, rfl, rfl, rfl,
    [_], rfl, List.forall_mem_singleton.mpr ⟨code, rfl⟩⟩
  exact Table.find_erase.trans (if_neg other)

theorem played_deliver (host : Host U) (found : s.sessions[i]? = some session)
    (open_ : session.done = false) (frame : Frame) : ∃ after, Played i session after [frame] s (s.deliverWs host i frame) := by
  have outcome : Outcome host s i session frame _ := deliverWs_cases found open_ frame
  generalize s.deliverWs host i frame = t at outcome ⊢
  cases outcome with
  | message reads fits =>
      exact ⟨_, rfl, rfl, rfl, rfl, fun _ => ⟨open_, rfl⟩, fun _ _ => rfl, rfl, rfl, rfl, [],
        (List.append_nil _).symm, fun o mem => by cases mem⟩
  | closed code => exact ⟨_, played_shut s i rfl code⟩

theorem found_of_open (open_ : s.isDone i = false) : ∃ session : Session,
    s.sessions[i]? = some session ∧ session.done = false := by
  rw [isDone] at open_
  cases found : s.sessions[i]? with
  | none =>
      rw [found] at open_
      cases open_
  | some session =>
      rw [found] at open_
      exact ⟨session, rfl, open_⟩

/-- The replay delivers from the front, all of it unless the session ends on the way. -/
theorem played_replay (host : Host U) (frames : List Frame)
    (found : s.sessions[i]? = some session) :
    ∃ heard after, Played i session after heard s (replay host i frames s) ∧ heard <+: frames ∧
      (after.done = false → heard = frames) ∧ (session.done = true → heard = []) := by
  induction frames generalizing s session with
  | nil => exact ⟨[], session, .refl found, List.prefix_rfl, fun _ => rfl, fun _ => rfl⟩
  | cons frame frames ih =>
      rw [Machine.replay]
      split
      · rename_i over_
        refine ⟨[], session, .refl found, List.nil_prefix, fun open_ => ?_, fun _ => rfl⟩
        rw [isDone, found, Option.map_some, Option.getD_some, open_] at over_
        cases over_
      · rename_i alive
        obtain ⟨_, found', open_⟩ := found_of_open (Bool.eq_false_iff.mpr alive)
        rw [found, Option.some.injEq] at found'
        subst found'
        obtain ⟨next, first⟩ := played_deliver host found open_ frame
        obtain ⟨heard, after, rest, front, all, -⟩ := ih (first.found found)
        refine ⟨frame :: heard, after, first.trans rest, ?_, fun ended => ?_, fun done => ?_⟩
        · exact List.cons_prefix_cons.mpr ⟨rfl, front⟩
        · rw [all ended]
        · rw [open_] at done
          cases done

/-! ### What the rest of the runner leaves alone -/

/-- An output that is about sessions. -/
def isSession : Output U → Bool
  | .receivedFrame .. | .upgrade .. | .wsRun _ | .wsSend .. | .wsClose .. | .evicted _ => true
  | _ => false

/-- The two states have the same sessions and parked frames. -/
structure SameWs (s t : Machine U) : Prop where
  sessions : t.sessions = s.sessions
  wsSessions : t.wsSessions = s.wsSessions
  wsOpened : t.wsOpened = s.wsOpened
  wsEarly : t.wsEarly = s.wsEarly
  closed : t.closed = s.closed
  out : ∃ os, t.out = s.out ++ os ∧ ∀ o ∈ os, isSession o = false

theorem SameWs.quiet (os : List (Output U)) (outs : t.out = s.out ++ os)
    (none_ : ∀ o ∈ os, isSession o = false) (sessions : t.sessions = s.sessions)
    (wsSessions : t.wsSessions = s.wsSessions) (wsOpened : t.wsOpened = s.wsOpened)
    (wsEarly : t.wsEarly = s.wsEarly) (closed : t.closed = s.closed) : SameWs s t :=
  ⟨sessions, wsSessions, wsOpened, wsEarly, closed, os, outs, none_⟩

theorem isSession_ackOut (id : Int64) (acked : Option Nat) :
    ∀ o ∈ ackOut (U := U) id acked, isSession o = false := by
  intro o mem
  cases acked with
  | none => cases mem
  | some n =>
      rw [ackOut] at mem
      split at mem
      · rw [List.mem_singleton.mp mem]
        rfl
      · cases mem

/-- A move changes no session, or it is a session's, or a session is opened, or the runner is
closed. -/
inductive WsCases (host : Host U) (s : Machine U) : Machine U → Prop where
  | same {t : Machine U} : SameWs s t → WsCases host s t
  | ws {t : Machine U} : WsMove host s t → WsCases host s t
  | opens {u : Machine U} (id : Int64) (context : Context) : SameWs s u →
      WsCases host s (u.openWs host id context)
  | close : WsCases host s s.close

theorem move_cases (move : Move host s t) : WsCases host s t := by
  have nil_ : s.out = s.out ++ [] := (List.append_nil _).symm
  have none_ : ∀ o ∈ ([] : List (Output U)), isSession o = false := fun o mem => by cases mem
  have one {o : Output U} (silent : isSession o = false) : ∀ o' ∈ [o], isSession o' = false :=
    List.forall_mem_singleton.mpr silent
  have completes (s : Machine U) (id : Int64) : SameWs s (s.complete id) := by
    rw [complete_eq]
    exact .quiet _ rfl (List.forall_mem_cons.mpr ⟨rfl, isSession_ackOut id _⟩) rfl rfl rfl rfl rfl
  have parked (u : Machine U) (same : SameWs s u) : WsCases host s u.boundEarly := by
    obtain ⟨_, _, _, eq⟩ := u.boundEarly_eq
    obtain ⟨sessions, wsSessions, wsOpened, wsEarly, closed, out⟩ := same
    rw [eq]
    exact .same ⟨sessions, wsSessions, wsOpened, wsEarly, closed, out⟩
  cases move with
  | acknowledge id =>
      rw [ackNow, ackCount_eq]
      exact .same (.quiet _ rfl (isSession_ackOut id _) rfl rfl rfl rfl rfl)
  | parkData bytes _ => exact parked _ (.quiet [] nil_ none_ rfl rfl rfl rfl rfl)
  | parkError message _ => exact parked _ (.quiet [] nil_ none_ rfl rfl rfl rfl rfl)
  | parkEnd _ => exact parked _ (.quiet [] nil_ none_ rfl rfl rfl rfl rfl)
  | upgrade context _ _ => exact .opens _ context (.quiet [] nil_ none_ rfl rfl rfl rfl rfl)
  | drop p' _ =>
      obtain ⟨sessions, wsSessions, wsOpened, wsEarly, closed, out⟩ :=
        completes (s.putPending _ p') _
      exact .same ⟨sessions, wsSessions, wsOpened, wsEarly, closed, out⟩
  | complete id => exact .same (completes s id)
  | ws ws => exact .ws ws
  | close => exact .close
  | run answerer context _ _ => exact .same (.quiet _ rfl (one rfl) rfl rfl rfl rfl rfl)
  | note id message => exact .same (.quiet _ rfl (one rfl) rfl rfl rfl rfl rfl)
  | answer response _ _ => exact .same (.quiet _ rfl (one rfl) rfl rfl rfl rfl rfl)
  | lastChunk id => exact .same (.quiet _ rfl (one rfl) rfl rfl rfl rfl rfl)
  | _ => exact .same (.quiet [] nil_ none_ rfl rfl rfl rfl rfl)

/-- A payload that is taken is none of a session, or a frame. -/
theorem take_cases {id : Int64} {payload : Option Frame} (take : Take host id payload s t) :
    SameWs s t ∨ ∃ frame, Heard host id frame (s.ackFrame id frame) t := by
  cases take with
  | receive => exact .inl (.quiet [_] rfl (by simp [isSession]) rfl rfl rfl rfl rfl)
  | stale _ =>
      have outs := List.append_assoc s.out [.received id] [.ack id 1]
      exact .inl (.quiet _ outs (by simp [isSession]) rfl rfl rfl rfl rfl)
  | frame frame heard => exact .inr ⟨frame, heard⟩

/-! ### The accounts of a session -/

end Machine

/-- What was offered is the messages, up to the frame that closed the session; what is not read yet
is what is counted, and it is bounded. -/
structure Session.Sound (host : Host U) (session : Session) : Prop where
  received : ∃ front back, session.offered = front ++ back ∧
    front.map (Frame.message host) = session.messages.map some ∧
    (session.done = false → back = [])
  consumed : session.consumed ≤ session.messages.length
  buffered : session.inboundBuffered =
    ((session.messages.drop session.consumed).map WsMessage.size).sum
  bound : session.inboundBuffered ≤ host.wsMaxBufferBytes

namespace Session

variable {host : Host U} {session : Session}

theorem Sound.message (h : session.Sound host) (open_ : session.done = false) {frame : Frame}
    {m : WsMessage} (reads : frame.message host = some m)
    (fits : session.inboundBuffered + m.size ≤ host.wsMaxBufferBytes) :
    ((session.hear frame).add m).Sound host := by
  obtain ⟨front, back, offered, decoded, whole⟩ := h.received
  rw [whole open_, List.append_nil] at offered
  refine ⟨⟨front ++ [frame], [], ?_, ?_, fun _ => rfl⟩, ?_, ?_, fits⟩
  · rw [List.append_nil, ← offered]
    rfl
  · rw [List.map_append, decoded, List.map_singleton, reads]
    simp [add, hear]
  · exact h.consumed.trans (by simp [add, hear])
  · have split : (session.messages ++ [m]).drop session.consumed =
        session.messages.drop session.consumed ++ [m] :=
      List.drop_append_of_le_length h.consumed
    change session.inboundBuffered + m.size = _
    rw [add, hear, split, List.map_append, List.sum_append, ← h.buffered]
    simp

/-- Frames behind the last message, of a session that is over. -/
theorem Sound.over_ (h : session.Sound host) {after : Session} (done : after.done = true)
    (more : List Frame) (offered : after.offered = session.offered ++ more)
    (messages : after.messages = session.messages) (consumed : after.consumed = session.consumed)
    (buffered : after.inboundBuffered = session.inboundBuffered) : after.Sound host := by
  obtain ⟨front, back, split, decoded, -⟩ := h.received
  refine ⟨⟨front, back ++ more, ?_, ?_, fun open_ => ?_⟩, ?_, ?_, ?_⟩
  · rw [offered, split, List.append_assoc]
  · rw [messages, decoded]
  · rw [done] at open_
    cases open_
  · rw [consumed, messages]
    exact h.consumed
  · rw [buffered, messages, consumed]
    exact h.buffered
  · rw [buffered]
    exact h.bound

theorem Sound.consume (h : session.Sound host) {m : WsMessage}
    (next : session.messages[session.consumed]? = some m) :
    ({ session with
      consumed := session.consumed + 1
      inboundBuffered := session.inboundBuffered - m.size } : Session).Sound host := by
  obtain ⟨inside, here⟩ := List.getElem?_eq_some_iff.mp next
  have first : session.messages.drop session.consumed =
      m :: session.messages.drop (session.consumed + 1) := by
    rw [← here]
    exact List.drop_eq_getElem_cons inside
  have sum := h.buffered
  rw [first, List.map_cons, List.sum_cons] at sum
  refine ⟨h.received, inside, ?_, (Nat.sub_le _ _).trans h.bound⟩
  dsimp only
  omega

theorem sound_new (id : Int64) (compressed : Bool) :
    ({ id := id, compressed := compressed } : Session).Sound host :=
  ⟨⟨[], [], rfl, rfl, fun _ => rfl⟩, Nat.le_refl 0, rfl, Nat.zero_le _⟩

end Session

namespace Machine

variable {host : Host U} {s t : Machine U} {i : Nat} {session : Session}

def isClose (i : Nat) : Output U → Bool
  | .wsClose k _ _ => k == i
  | _ => false

def isStart (i : Nat) : Output U → Bool
  | .wsRun k => k == i
  | _ => false

/-- How often the session's close may have gone out. -/
def doneAt (s : Machine U) (i : Nat) : Nat := (s.sessions[i]?.elim false Session.done).toNat

/-- How often the session's handler was started. -/
def startedAt (s : Machine U) (i : Nat) : Nat :=
  (s.sessions[i]?.elim false fun session => session.phase = .running).toNat

/-- What holds of the sessions in every run. -/
structure Accounts (host : Host U) (s : Machine U) : Prop where
  sound : ∀ (i : Nat) (session : Session), s.sessions[i]? = some session → session.Sound host
  live : ∀ id i, s.wsSessions.find id = some i → ∃ session,
    s.sessions[i]? = some session ∧ session.id = id ∧ session.done = false
  closes : ∀ i, s.out.countP (isClose i) ≤ s.doneAt i
  starts : ∀ i, s.out.countP (isStart i) = s.startedAt i
  parked : s.wsParked ≤ parkedLimit

/-- Nothing but the outputs of others is added. -/
theorem Accounts.congr (h : Accounts host s) (sessions : t.sessions = s.sessions)
    (wsSessions : t.wsSessions = s.wsSessions) (parked : t.wsParked ≤ parkedLimit)
    (os : List (Output U)) (outs : t.out = s.out ++ os)
    (closes : ∀ o ∈ os, ∀ i, isClose i o = false) (starts : ∀ o ∈ os, ∀ i, isStart i o = false) :
    Accounts host t := by
  refine ⟨fun i session found => h.sound i session (sessions ▸ found), fun id i found => ?_,
    fun i => ?_, fun i => ?_, parked⟩
  · rw [sessions]
    exact h.live id i (wsSessions ▸ found)
  · rw [outs, countP_silent fun o mem => closes o mem i, doneAt, sessions]
    exact h.closes i
  · rw [outs, countP_silent fun o mem => starts o mem i, startedAt, sessions]
    exact h.starts i

/-- One session changes. -/
theorem Accounts.set (h : Accounts host s) (found : s.sessions[i]? = some session)
    (after : Session) (sound : after.Sound host) (sessions : t.sessions = s.sessions.set i after)
    (live : ∀ id k, t.wsSessions.find id = some k →
      s.wsSessions.find id = some k ∧ (k = i → after.id = session.id ∧ after.done = false))
    (parked : t.wsParked ≤ parkedLimit) (os : List (Output U)) (outs : t.out = s.out ++ os)
    (closes : ∀ k, os.countP (isClose k) + (if k = i then session.done.toNat else 0) ≤
      if k = i then after.done.toNat else 0)
    (starts : ∀ k, os.countP (isStart k) +
        (if k = i then (decide (session.phase = .running)).toNat else 0) =
      if k = i then (decide (after.phase = .running)).toNat else 0) : Accounts host t := by
  obtain ⟨inside, here⟩ := List.getElem?_eq_some_iff.mp found
  have at_ (k : Nat) : t.sessions[k]? = if k = i then some after else s.sessions[k]? := by
    rw [sessions, List.getElem?_set]
    by_cases same : i = k
    · subst same
      simp [inside]
    · rw [if_neg same, if_neg (Ne.symm same)]
  refine ⟨fun k session' found' => ?_, fun id k found' => ?_, fun k => ?_, fun k => ?_, parked⟩
  · rw [at_] at found'
    split at found'
    · exact Option.some.inj found' ▸ sound
    · exact h.sound k session' found'
  · obtain ⟨before, mine⟩ := live id k found'
    obtain ⟨old, there, same, open_⟩ := h.live id k before
    rw [at_]
    by_cases index : k = i
    · subst index
      rw [found, Option.some.injEq] at there
      obtain ⟨kept, alive⟩ := mine rfl
      exact ⟨after, if_pos rfl, kept.trans (there ▸ same), alive⟩
    · exact ⟨old, (if_neg index).trans there, same, open_⟩
  · have before := h.closes k
    have new := closes k
    rw [outs, List.countP_append, doneAt, at_]
    rw [doneAt] at before
    by_cases index : k = i
    · subst index
      rw [found] at before
      rw [if_pos rfl, if_pos rfl] at new
      rw [if_pos rfl]
      dsimp only [Option.elim_some] at before ⊢
      omega
    · rw [if_neg index, if_neg index] at new
      rw [if_neg index]
      omega
  · have before := h.starts k
    have new := starts k
    rw [outs, List.countP_append, startedAt, at_]
    rw [startedAt] at before
    by_cases index : k = i
    · subst index
      rw [found] at before
      rw [if_pos rfl, if_pos rfl] at new
      rw [if_pos rfl]
      dsimp only [Option.elim_some] at before ⊢
      omega
    · rw [if_neg index, if_neg index] at new
      rw [if_neg index]
      omega

/-! ### Parked frames -/

theorem wsParked_erase (t : Table Int64 (List Frame)) (id : Int64) :
    ((t.erase id).entries.map fun e => e.2.length).sum ≤
      (t.entries.map fun e => e.2.length).sum :=
  ((t.erase_sublist id).map _).sum_le_sum fun _ _ => Nat.zero_le _

/-- With a turn for each connection the loop leaves no more than fit. -/
theorem boundWsLoop_parked {turns : Nat} (enough : s.wsEarly.entries.length ≤ turns) :
    (boundWsLoop turns s).wsParked ≤ parkedLimit := by
  induction turns generalizing s with
  | zero =>
      have empty : s.wsEarly.entries = [] := List.length_eq_zero_iff.mp (Nat.le_zero.mp enough)
      rw [boundWsLoop, wsParked, empty]
      exact Nat.zero_le _
  | succ turns ih =>
      rw [boundWsLoop]
      split
      · split
        · rename_i e rest first
          have fewer := Table.erase_head first
          refine ih ?_
          change (s.wsEarly.erase e.1).entries.length ≤ turns
          rw [fewer]
          rw [first, List.length_cons] at enough
          omega
        · rename_i empty
          rw [wsParked, empty]
          exact Nat.zero_le _
      · rename_i fits
        exact Nat.not_lt.mp fits

/-- The loop gives up only parked frames. -/
theorem boundWsLoop_eq (turns : Nat) (s : Machine U) : ∃ wsEarly os,
    boundWsLoop turns s = { s with wsEarly := wsEarly, out := s.out ++ os } ∧
      ∀ o ∈ os, ∃ id, o = .evicted id := by
  induction turns generalizing s with
  | zero => exact ⟨s.wsEarly, [], by simp [boundWsLoop], by simp⟩
  | succ turns ih =>
      rw [boundWsLoop]
      split
      · split
        · rename_i e rest first
          obtain ⟨wsEarly, os, eq, only⟩ :=
            ih ({ s with wsEarly := s.wsEarly.erase e.1 }.emit (.evicted e.1))
          refine ⟨wsEarly, .evicted e.1 :: os, ?_, List.forall_mem_cons.mpr ⟨⟨e.1, rfl⟩, only⟩⟩
          rw [eq, emit]
          simp only [List.append_assoc, List.singleton_append]
        · exact ⟨s.wsEarly, [], by simp, by simp⟩
      · exact ⟨s.wsEarly, [], by simp, by simp⟩

/-! ### Runs -/

/-- A session is closed, with the frames `more` behind its last message. -/
theorem Accounts.shut (h : Accounts host s) (found : s.sessions[i]? = some session)
    (open_ : session.done = false) {last : Session} (more : List Frame)
    (heard : last = { session with offered := session.offered ++ more }) (code : Int) :
    Accounts host (s.shut i last code) := by
  subst heard
  have sound : ({ session with offered := session.offered ++ more }.finish code).Sound host :=
    (h.sound i session found).over_ rfl more rfl rfl rfl rfl
  refine h.set found _ sound rfl (fun id k there => ?_) h.parked [.wsClose i session.id code] rfl
    (fun k => ?_) (fun k => ?_)
  · obtain ⟨other, before⟩ : id ≠ session.id ∧ s.wsSessions.find id = some k := by
      have erased : (s.wsSessions.erase session.id).find id = some k := there
      rw [Table.find_erase] at erased
      split at erased
      · cases erased
      · rename_i other
        exact ⟨other, erased⟩
    refine ⟨before, fun index => absurd ?_ other⟩
    obtain ⟨old, there', same, -⟩ := h.live id k before
    rw [index, found, Option.some.injEq] at there'
    rw [← same, there']
  · by_cases index : k = i
    · subst index
      simp [isClose, open_, Session.finish]
    · simp [isClose, index, Ne.symm index]
  · exact Nat.zero_add _

/-- A frame is delivered. -/
theorem Accounts.deliver (h : Accounts host s) (found : s.sessions[i]? = some session)
    (frame : Frame) : Accounts host (s.deliverWs host i frame) := by
  have nil_ : s.out = s.out ++ [] := (List.append_nil _).symm
  cases done : session.done with
  | true =>
      rw [deliverWs_done found done]
      have sound : (session.hear frame).Sound host :=
        (h.sound i session found).over_ done [frame] rfl rfl rfl rfl
      refine h.set found _ sound rfl (fun id k there => ⟨there, fun index => ?_⟩) h.parked [] nil_
        (fun k => by simp [Session.hear]) fun k => Nat.zero_add _
      obtain ⟨old, there', -, open_⟩ := h.live id k there
      rw [index, found, Option.some.injEq] at there'
      rw [← there', done] at open_
      cases open_
  | false =>
      have outcome : Outcome host s i session frame _ := deliverWs_cases found done frame
      generalize s.deliverWs host i frame = t at outcome ⊢
      cases outcome with
      | message reads fits =>
          exact h.set found _ ((h.sound i session found).message done reads fits) rfl
            (fun id k there => ⟨there, fun _ => ⟨rfl, done⟩⟩) h.parked [] nil_
            (fun k => by simp [Session.hear, Session.add]) fun k => Nat.zero_add _
      | closed code => exact h.shut found done [frame] rfl code

theorem Accounts.replay (frames : List Frame) (h : Accounts host s) :
    Accounts host (replay host i frames s) := by
  induction frames generalizing s with
  | nil => exact h
  | cons frame frames ih =>
      rw [Machine.replay]
      split
      · exact h
      · rename_i alive
        obtain ⟨session, found, -⟩ := found_of_open (Bool.eq_false_iff.mpr alive)
        exact ih (h.deliver found frame)

theorem Accounts.unpark (h : Accounts host s) (id : Int64) :
    Accounts host { s with wsEarly := s.wsEarly.erase id } := by
  refine h.congr rfl rfl ((wsParked_erase s.wsEarly id).trans h.parked) []
    (List.append_nil _).symm ?_ ?_
  · intro o mem
    cases mem
  · intro o mem
    cases mem

/-- The handler of a session at its gate is started. -/
theorem Accounts.run (h : Accounts host s) (found : s.sessions[i]? = some session)
    (gating : session.phase = .gating) : Accounts host (s.runWs host session.id i) := by
  rw [runWs]
  have found' : { s with wsEarly := s.wsEarly.erase session.id }.sessions[i]? = some session :=
    found
  obtain ⟨heard, after, played, -⟩ :=
    played_replay host ((s.wsEarly.find session.id).getD []) found'
  have replayed : Accounts host _ := (h.unpark session.id).replay (i := i)
    ((s.wsEarly.find session.id).getD [])
  have here := played.found found'
  generalize Machine.replay host i _ _ = t at played replayed here ⊢
  have waits : after.phase = .gating := played.phase.trans gating
  have sound := replayed.sound i after here
  have alive (id : Int64) (k : Nat) (there : t.wsSessions.find id = some k) (index : k = i) :
      after.id = after.id ∧ after.done = false := by
    obtain ⟨old, there', -, open_⟩ := replayed.live id k there
    rw [index, here, Option.some.injEq] at there'
    exact ⟨rfl, there' ▸ open_⟩
  refine replayed.set here { after with phase := .running }
    ⟨sound.received, sound.consumed, sound.buffered, sound.bound⟩ (modify_found here _)
    (fun id k there => ⟨there, alive id k there⟩) replayed.parked [.wsRun i] rfl (fun k => ?_)
    fun k => ?_
  · by_cases index : k = i
    · simp [isClose, index]
    · simp [isClose, index]
  · by_cases index : k = i
    · simp [isStart, index, waits]
    · simp [isStart, index, Ne.symm index]

theorem Accounts.finish (h : Accounts host s) (i : Nat) (code : Int) :
    Accounts host (s.finish i code) := by
  cases found : s.sessions[i]? with
  | none =>
      rw [finish_none found]
      exact h
  | some session =>
      cases done : session.done with
      | true =>
          rw [finish_done found done]
          exact h
      | false =>
          rw [finish_open found done]
          refine h.shut found done [] ?_ code
          rw [List.append_nil]

/-- A phase in which no handler runs. -/
theorem Accounts.phase (h : Accounts host s) (found : s.sessions[i]? = some session)
    (gating : session.phase = .gating) {phase : Phase} (stays : phase ≠ .running) :
    Accounts host (s.setPhase i phase) := by
  have sound := h.sound i session found
  refine h.set found { session with phase := phase }
    ⟨sound.received, sound.consumed, sound.buffered, sound.bound⟩ (modify_found found _)
    (fun id k there => ⟨there, fun index => ?_⟩) h.parked [] (List.append_nil _).symm
    (fun k => by simp) fun k => by simp [gating, stays]
  obtain ⟨old, there', -, open_⟩ := h.live id k there
  rw [index, found, Option.some.injEq] at there'
  exact ⟨rfl, there' ▸ open_⟩

theorem Accounts.consume (h : Accounts host s) (took : s.wsConsume i = some t) :
    Accounts host t := by
  rw [wsConsume] at took
  split at took
  · cases took
  · rename_i session found
    obtain ⟨m, next, rfl⟩ := Option.map_eq_some_iff.mp took
    refine h.set found _ ((h.sound i session found).consume next) rfl
      (fun id k there => ⟨there, fun index => ?_⟩) h.parked [] (List.append_nil _).symm
      (fun k => by simp) fun k => Nat.zero_add _
    obtain ⟨old, there', -, open_⟩ := h.live id k there
    rw [index, found, Option.some.injEq] at there'
    exact ⟨rfl, there' ▸ open_⟩

theorem Accounts.send (h : Accounts host s) (i : Nat) (payload : Bytes) (binary : Bool) :
    Accounts host (s.wsSend host i payload binary) := by
  rw [wsSend]
  split
  · exact h
  · split
    · exact h
    · exact h.congr rfl rfl h.parked [_] rfl (by simp [isClose]) (by simp [isStart])

theorem Accounts.opens (h : Accounts host s) (id : Int64) (context : Context) :
    Accounts host (s.openWs host id context) := by
  have at_ (k : Nat) : (s.openWs host id context).sessions[k]? =
      if k = s.sessions.length then some { id := id, compressed := host.compressed context }
      else s.sessions[k]? := by
    rw [openWs, emit]
    rcases Nat.lt_trichotomy k s.sessions.length with below | same | above
    · rw [List.getElem?_append_left below, if_neg below.ne]
    · subst same
      rw [List.getElem?_concat_length, if_pos rfl]
    · rw [List.getElem?_eq_none (by simp; omega), if_neg above.ne', List.getElem?_eq_none above.le]
  have fresh : s.sessions[s.sessions.length]? = none := List.getElem?_eq_none (Nat.le_refl _)
  refine ⟨fun k session found => ?_, fun id' k found => ?_, fun k => ?_, fun k => ?_, h.parked⟩
  · rw [at_] at found
    split at found
    · exact Option.some.inj found ▸ Session.sound_new id _
    · exact h.sound k session found
  · have there : (s.wsSessions.set id s.sessions.length).find id' = some k := found
    rw [Table.find_set] at there
    rw [at_]
    split at there
    · rename_i same
      rw [if_pos (Option.some.inj there).symm]
      exact ⟨_, rfl, same.symm, rfl⟩
    · obtain ⟨session, here, mine, open_⟩ := h.live id' k there
      rw [if_neg]
      · exact ⟨session, here, mine, open_⟩
      · rintro rfl
        rw [fresh] at here
        cases here
  · have before := h.closes k
    rw [doneAt] at before
    rw [doneAt, at_, openWs, emit, countP_silent (by simp [isClose])]
    split
    · rename_i last
      rw [last, fresh] at before
      exact last ▸ before
    · exact before
  · have before := h.starts k
    rw [startedAt] at before
    rw [startedAt, at_, openWs, emit, countP_silent (by simp [isStart])]
    split
    · rename_i last
      rw [last, fresh] at before
      exact last ▸ before
    · exact before

theorem shutdowns_eq (es : List (Int64 × Nat)) : ∃ change : List Session → List Session,
    ∀ s : Machine U, es.foldl (fun s e => s.shutdown e.2) s =
      { s with sessions := change s.sessions } := by
  induction es with
  | nil => exact ⟨id, fun s => rfl⟩
  | cons e es ih =>
      obtain ⟨change, rest⟩ := ih
      exact ⟨fun l => change (l.modify e.2 Session.abandon), fun s => rest (s.shutdown e.2)⟩

/-- The tables may as well be emptied first. -/
theorem close_eq (open_ : s.closed = false) : s.close =
    s.wsSessions.entries.foldl (fun s e => s.shutdown e.2) { s with
      closed := true, outbound := .empty, wsSessions := .empty, wsEarly := .empty
      wsAcked := .empty } := by
  obtain ⟨change, eq⟩ := shutdowns_eq (U := U) s.wsSessions.entries
  rw [close, if_neg (by simp [open_]), eq, eq]

theorem Accounts.shutdown (h : Accounts host s) (none_ : s.wsSessions = .empty) (i : Nat) :
    Accounts host (s.shutdown i) := by
  have ended : s.shutdown i = { s with sessions := s.sessions.modify i Session.abandon } := rfl
  rw [ended]
  cases found : s.sessions[i]? with
  | none =>
      rw [List.modify_eq_self (List.getElem?_eq_none_iff.mp found)]
      exact h
  | some session =>
      have sound : session.abandon.Sound host := by
        rw [Session.abandon]
        split
        · exact h.sound i session found
        · exact (h.sound i session found).over_ rfl [] (List.append_nil _).symm rfl rfl rfl
      have same : session.abandon.phase = session.phase := by
        rw [Session.abandon]
        split
        · rfl
        · rfl
      have over_ : session.abandon.done = true := by
        rw [Session.abandon]
        split
        · assumption
        · rfl
      rw [modify_found found]
      refine h.set found _ sound rfl (fun id k there => ?_) h.parked [] (List.append_nil _).symm
        (fun k => ?_) fun k => by simp [same]
      · rw [none_] at there
        cases there
      · rw [over_]
        by_cases index : k = i
        · simp [index, Bool.toNat_le]
        · simp [index]

theorem Accounts.close (h : Accounts host s) : Accounts host s.close := by
  have shut (es : List (Int64 × Nat)) : ∀ u : Machine U, Accounts host u → u.wsSessions = .empty →
      Accounts host (es.foldl (fun s e => s.shutdown e.2) u) := by
    induction es with
    | nil => exact fun u kept _ => kept
    | cons e es ih => exact fun u kept none_ => ih _ (kept.shutdown none_ e.2) none_
  cases closed : s.closed with
  | true =>
      rw [Machine.close, if_pos closed]
      exact h
  | false =>
      rw [close_eq closed]
      exact shut _ _ ⟨h.sound, fun id k there => (by cases there), h.closes, h.starts,
        Nat.zero_le _⟩ rfl

/-- A frame comes in. -/
theorem Accounts.hear (h : Accounts host s) {id : Int64} {frame : Frame}
    (heard : Heard host id frame (s.ackFrame id frame) t) : Accounts host t := by
  have acked : Accounts host (s.ackFrame id frame) :=
    h.congr rfl rfl h.parked [.receivedFrame id frame, .ack id _] (List.append_assoc ..)
      (by simp [isClose]) (by simp [isStart])
  generalize s.ackFrame id frame = u at acked heard
  cases heard with
  | live found =>
      obtain ⟨session, here, -⟩ := acked.live id _ found
      exact acked.deliver here frame
  | late => exact acked
  | parked none_ fresh =>
      have few : (boundWsEarly { u with
          wsEarly := u.wsEarly.set id ((u.wsEarly.find id).getD [] ++ [frame]) }).wsParked ≤
          parkedLimit := boundWsLoop_parked (Nat.le_refl _)
      rw [boundWsEarly] at few ⊢
      obtain ⟨wsEarly, os, eq, only⟩ := boundWsLoop_eq _ { u with
        wsEarly := u.wsEarly.set id ((u.wsEarly.find id).getD [] ++ [frame]) }
      rw [eq] at few ⊢
      refine acked.congr rfl rfl few os rfl ?_ ?_
      · intro o mem
        obtain ⟨_, rfl⟩ := only o mem
        exact fun i => rfl
      · intro o mem
        obtain ⟨_, rfl⟩ := only o mem
        exact fun i => rfl

theorem Accounts.same (h : Accounts host s) (same : SameWs s t) : Accounts host t := by
  obtain ⟨os, outs, silent⟩ := same.out
  refine h.congr same.sessions same.wsSessions ?_ os outs ?_ ?_
  · rw [wsParked, same.wsEarly]
    exact h.parked
  · intro o mem i
    have quiet := silent o mem
    cases o with
    | wsClose => cases quiet
    | _ => rfl
  · intro o mem i
    have quiet := silent o mem
    cases o with
    | wsRun => cases quiet
    | _ => rfl

theorem move_accounts (h : Accounts host s) (move : Move host s t) : Accounts host t := by
  cases move_cases move with
  | same same => exact h.same same
  | ws ws =>
      cases ws with
      | finish i code => exact h.finish i code
      | run found gating => exact h.run found gating
      | turnAway found gating =>
          exact (h.unpark _).phase (s := { s with wsEarly := _ }) found gating (by simp)
      | consume took => exact h.consume took
      | send i payload binary => exact h.send i payload binary
  | opens id context same => exact (h.same same).opens id context
  | close => exact h.close

theorem take_accounts (h : Accounts host s) {id : Int64} {payload : Option Frame}
    (take : Take host id payload s t) : Accounts host t := by
  rcases take_cases take with same | ⟨frame, heard⟩
  · exact h.same same
  · exact h.hear heard

theorem reaches_accounts {ok : Machine U → Act U → Prop}
    (run : Reaches (stepOf (step host)) ok {} s) : Accounts host s := by
  refine reaches_moves ⟨?_, ?_, fun i => Nat.le_refl _, fun i => rfl, Nat.zero_le _⟩
    (fun _ _ _ _ h take => take_accounts h take) (fun _ _ h move => move_accounts h move) run
  · intro i session found
    cases found
  · intro id i found
    cases found

/-- In every run the messages of a session are what was delivered to it, frame by frame, all of it
while the session is open, and else up to some frame before its end; the bytes and units that its
handler has not read yet are what is counted as buffered, and no more than fit; its handler is
started once, unless it was turned away, and its close goes out at most once, and only when it is
over. -/
theorem session_accounts {ok : Machine U → Act U → Prop}
    (run : Reaches (stepOf (step host)) ok {} s) (found : s.sessions[i]? = some session) :
    (∃ front back, session.offered = front ++ back ∧
      front.map (Frame.message host) = session.messages.map some ∧
      (session.done = false → back = [])) ∧
    session.inboundBuffered =
      ((session.messages.drop session.consumed).map WsMessage.size).sum ∧
    session.inboundBuffered ≤ host.wsMaxBufferBytes ∧
    s.out.countP (isStart i) = (if session.phase = .running then 1 else 0) ∧
    s.out.countP (isClose i) ≤ session.done.toNat := by
  have h := reaches_accounts run
  have sound := h.sound i session found
  have starts := h.starts i
  have closes := h.closes i
  rw [startedAt, found, Option.elim_some] at starts
  rw [doneAt, found, Option.elim_some] at closes
  refine ⟨sound.received, sound.buffered, sound.bound, ?_, closes⟩
  rw [starts]
  split
  · rename_i running
    rw [decide_eq_true running]
    rfl
  · rename_i waits
    rw [decide_eq_false waits]
    rfl

/-- A frame before the session, one while its gate decides, one after, one message read. -/
def socketRun : List (Act sampleCode) :=
  [.call (.op (.addWsRoute (Engine.ascii "/ws") (1 : Nat) [] [])),
    .wsMessage 7 ⟨1, 0, Engine.ascii "a"⟩,
    .head { sampleHead 7 false with method := .get, routePattern := Engine.ascii "/ws" },
    .wsMessage 7 ⟨1, 0, Engine.ascii "b"⟩, .gateVerdict 0 (some 101),
    .wsMessage 7 ⟨2, 0, Engine.ascii "cd"⟩, .wsConsume 0]

theorem socket_accounts :
    ∃ s session, exec (step sampleHost) socketRun {} = some s ∧ s.sessions[0]? = some session ∧
      session.messages.length = 3 ∧
      (∃ front back, session.offered = front ++ back ∧
        front.map (Frame.message sampleHost) = session.messages.map some ∧
        (session.done = false → back = [])) ∧
      session.inboundBuffered =
        ((session.messages.drop session.consumed).map WsMessage.size).sum ∧
      session.inboundBuffered ≤ 16 ∧
      s.out.countP (isStart 0) = (if session.phase = .running then 1 else 0) ∧
      s.out.countP (isClose 0) ≤ session.done.toNat := by
  obtain ⟨s, run, three⟩ := exec_any (f := step sampleHost) (s := {})
    (p := fun s => s.sessions[0]?.map (·.messages.length) = some 3)
    (show (exec _ socketRun _).any _ = true by decide +kernel)
  obtain ⟨session, found, count⟩ := Option.map_eq_some_iff.mp three
  exact ⟨s, session, run, found, count, session_accounts (exec_reaches run) found⟩

end Machine

end NitroServer.Runner
