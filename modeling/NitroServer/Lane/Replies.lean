/-
Integrity of the response stream of an HTTP/1.1 connection.

The pieces a connection writes should be replies in a row: interim responses, whole
answers, streamed answers from their head to their last piece, one for each request
and in the order of the requests, the last one possibly cut short. `Replies` says so
of a trace.

* `Phase` — an automaton over the marks of a lane; `exec_split` reads a reply list
  off an accepted run.
* `Lane.Orderly` — the invariant: what is written is accepted, what waits in the inbox
  goes on from there, and the phase it leads to is the one the open request, the file
  or the session calls for (`Lane.due`).
* `response_stream` — every run of the reactor in which the runner follows the call
  protocol and no error answer cuts into an answer already begun.
* `timeout_cuts_in` — a run in which the timer's 408 is written although the handler
  has begun a stream: two status lines for one request.
-/

import NitroServer.Lane.Refine

namespace NitroServer.Engine

open NitroServer.Lib

/-! ### Replies -/

/-- The engine answers on its own, without a handler. -/
def Origin.direct : Origin → Bool
  | .engine | .fixed | .guard => true
  | _ => false

/-- The parts of a streamed answer behind its head. -/
def Piece.follows (p head : Piece) (pt : Part) : Prop := p.part = pt ∧ p.origin = head.origin

/-- A complete reply, as the pieces it is written in. -/
inductive Reply where
  | interim (p : Piece) (part : p.part = .interim)
  | whole (p : Piece) (part : p.part = .whole) (opens : p.opens = true)
  | streamed (head : Piece) (chunks : List Piece) (last : Piece)
      (opens : head.part = .head ∧ head.opens = true)
      (body : ∀ p ∈ chunks, p.follows head .chunk) (ends : last.follows head .last)

namespace Reply

def pieces : Reply → List Piece
  | interim p _ => [p]
  | whole p _ _ => [p]
  | streamed head chunks last _ _ _ => head :: chunks ++ [last]

/-- The request it answers; an interim response answers none. -/
def owner : Reply → Option Origin
  | interim _ _ => none
  | whole p _ _ => some p.origin
  | streamed head _ _ _ _ _ => some head.origin

end Reply

/-- What may stand behind the complete replies: nothing, a request not answered yet, an
answer cut short, or the frames of a session. -/
inductive Cut where
  | nothing
  | unanswered (o : Origin) (handled : o.direct = false)
  | partway (head : Piece) (chunks : List Piece)
      (opens : head.part = .head ∧ head.opens = true)
      (body : ∀ p ∈ chunks, p.follows head .chunk)
  | frames (ps : List Piece) (raw : ∀ p ∈ ps, p.part = .raw)

namespace Cut

def pieces : Cut → List Piece
  | nothing | unanswered _ _ => []
  | partway head chunks _ _ => head :: chunks
  | frames ps _ => ps

def owner : Cut → List Origin
  | nothing | frames _ _ => []
  | unanswered o _ => [o]
  | partway head _ _ _ => [head.origin]

end Cut

/-- The pieces an event writes. -/
def Ev.pieces : Ev → List Piece
  | .write payload _ _ _ => payload
  | _ => []

/-- The piece answers a request by itself: the request never reached a handler. -/
def Piece.answered (p : Piece) : List Origin :=
  if p.part = .whole ∧ p.origin.direct = true then [p.origin] else []

/-- The requests an event starts on: one dispatched, an upgrade, one answered by the
engine. -/
def Ev.requests : Ev → List Origin
  | .dispatch id => [.request id]
  | .upgrade => [.session]
  | .write payload _ _ _ => payload.flatMap Piece.answered
  | _ => []

/-- The pieces written are replies in a row, one for each request and in the order of
the requests; the last may be missing or cut short. -/
def Replies (trace : List Ev) : Prop :=
  ∃ (replies : List Reply) (cut : Cut),
    trace.flatMap Ev.pieces = replies.flatMap Reply.pieces ++ cut.pieces ∧
      replies.filterMap Reply.owner ++ cut.owner = trace.flatMap Ev.requests

/-- The piece starts a final response. -/
def Piece.heads (p : Piece) : Bool := p.part == .whole || p.part == .head

/-- There is at most one status line for a request, interim ones aside. -/
theorem Replies.heads_le {trace : List Ev} (h : Replies trace) :
    (trace.flatMap Ev.pieces).countP Piece.heads ≤ (trace.flatMap Ev.requests).length := by
  obtain ⟨replies, cut, pieces, owners⟩ := h
  have body : ∀ {head : Piece} {chunks : List Piece}, (∀ p ∈ chunks, p.follows head .chunk) →
      chunks.countP Piece.heads = 0 := fun hc =>
    List.countP_eq_zero.mpr fun p hp => by simp [Piece.heads, (hc p hp).1]
  have done : (replies.flatMap Reply.pieces).countP Piece.heads =
      (replies.filterMap Reply.owner).length := by
    clear pieces owners
    induction replies with
    | nil => rfl
    | cons reply replies ih =>
        rw [List.flatMap_cons, List.countP_append, ih, List.filterMap_cons]
        cases reply with
        | interim p part => simp [Reply.pieces, Reply.owner, Piece.heads, part]
        | whole p part opens =>
            simp [Reply.pieces, Reply.owner, Piece.heads, part, Nat.add_comm]
        | streamed head chunks last opens hbody ends =>
            simp [Reply.pieces, Reply.owner, Piece.heads, opens.1, ends.1, List.countP_append,
              body hbody, Nat.add_comm]
  have rest : cut.pieces.countP Piece.heads ≤ cut.owner.length := by
    cases cut with
    | nothing | unanswered => simp [Cut.pieces]
    | partway head chunks opens hbody =>
        simp [Cut.pieces, Cut.owner, Piece.heads, opens.1, body hbody]
    | frames ps raw =>
        have none : ps.countP Piece.heads = 0 :=
          List.countP_eq_zero.mpr fun p hp => by simp [Piece.heads, raw p hp]
        simp [Cut.pieces, none]
  rw [pieces, ← owners, List.countP_append, List.length_append, done]
  omega

/-! ### Phases -/

/-- Where the stream stands: between replies, before the answer of a request, inside
it, or a session. -/
inductive Phase where
  | idle | session
  | waiting (o : Origin)
  | body (o : Origin)
deriving DecidableEq, Repr

namespace Phase

/-- A piece is written. -/
def piece : Phase → Piece → Option Phase
  | idle, p =>
      if p.part = .interim then some idle
      else if p.part = .whole ∧ p.origin.direct = true ∧ p.opens = true then some idle
      else none
  | waiting o, p =>
      if p.origin = o ∧ p.opens = true then
        match p.part with
        | .whole => some (if o = .session then session else idle)
        | .head => some (body o)
        | _ => none
      else none
  | body o, p =>
      if p.origin = o then
        match p.part with
        | .chunk => some (body o)
        | .last => some idle
        | _ => none
      else none
  | session, p => if p.part = .raw then some session else none

def step : Phase → Mark → Option Phase
  | ph, .piece p => ph.piece p
  | idle, .dispatch id => some (waiting (.request id))
  | idle, .upgrade => some (waiting .session)
  | _, .dispatch _ | _, .upgrade => none
  | ph, .finish _ | ph, .queued _ => some ph

theorem idle_interim {p : Piece} (part : p.part = .interim) : idle.piece p = some idle := by
  simp [piece, part]

theorem idle_whole {p : Piece} (part : p.part = .whole) (direct : p.origin.direct = true)
    (opens : p.opens = true) : idle.piece p = some idle := by
  simp [piece, part, direct, opens]

theorem waiting_whole {p : Piece} {id : Nat} (part : p.part = .whole)
    (origin : p.origin = .request id) (opens : p.opens = true) :
    (waiting (.request id)).piece p = some idle := by
  simp [piece, part, origin, opens]

theorem waiting_head {p : Piece} {id : Nat} (part : p.part = .head)
    (origin : p.origin = .request id) (opens : p.opens = true) :
    (waiting (.request id)).piece p = some (body (.request id)) := by
  simp [piece, part, origin, opens]

theorem body_chunk {p : Piece} {id : Nat} (part : p.part = .chunk)
    (origin : p.origin = .request id) :
    (body (.request id)).piece p = some (body (.request id)) := by
  simp [piece, part, origin]

theorem body_last {p : Piece} {id : Nat} (part : p.part = .last)
    (origin : p.origin = .request id) : (body (.request id)).piece p = some idle := by
  simp [piece, part, origin]

theorem session_raw {p : Piece} (part : p.part = .raw) : session.piece p = some session := by
  simp [piece, part]

/-- No piece leads to a waiting phase. -/
theorem piece_ne_waiting {ph : Phase} {p : Piece} {o : Origin} :
    ph.piece p ≠ some (waiting o) := by
  unfold piece
  repeat' split
  all_goals simp

/-- Pieces lead to a waiting phase only when there are none. -/
theorem exec_waiting {ps : List Piece} {ph : Phase} {o : Origin}
    (h : exec piece ps ph = some (waiting o)) : ps = [] ∧ ph = waiting o := by
  induction ps using List.reverseRecOn with
  | nil =>
      simp only [exec, Option.some.injEq] at h
      exact ⟨rfl, h⟩
  | append_singleton ps p =>
      rw [exec_append] at h
      obtain ⟨ph', -, h⟩ := Option.bind_eq_some_iff.mp h
      obtain ⟨ph'', hp, h⟩ := Option.bind_eq_some_iff.mp h
      simp only [exec, Option.some.injEq] at h
      exact absurd (h ▸ hp) piece_ne_waiting

/-- Finishing writes are not looked at. -/
theorem exec_write (ps : List Piece) (fin : List Bool) (ph : Phase) :
    exec step (ps.map .piece ++ fin.map .finish) ph = exec piece ps ph := by
  have skip : ∀ ph, exec step (fin.map .finish) ph = some ph := by
    intro ph
    induction fin with
    | nil => rfl
    | cons ka fin ih => cases ph <;> simpa [exec, step] using ih
  induction ps generalizing ph with
  | nil => simpa [exec] using skip ph
  | cons p ps ih => simp [exec, step, ih]

end Phase

/-! ### Reading the replies off a run of phases -/

def Mark.pieces : Mark → List Piece
  | .piece p => [p]
  | _ => []

def Mark.requests : Mark → List Origin
  | .dispatch id => [.request id]
  | .upgrade => [.session]
  | .piece p => p.answered
  | _ => []

def Cut.phase : Cut → Phase
  | .nothing => .idle
  | .unanswered o _ => .waiting o
  | .partway head _ _ _ => .body head.origin
  | .frames _ _ => .session

/-- One more mark: the cut grows, or becomes a reply. -/
theorem Cut.extend {cut : Cut} {m : Mark} {ph : Phase} (h : cut.phase.step m = some ph) :
    ∃ (replies : List Reply) (cut' : Cut), cut'.phase = ph ∧
      cut.pieces ++ m.pieces = replies.flatMap Reply.pieces ++ cut'.pieces ∧
      replies.filterMap Reply.owner ++ cut'.owner = cut.owner ++ m.requests := by
  cases m with
  | finish ka | queued e =>
      refine ⟨[], cut, ?_, by simp [Mark.pieces], by simp [Mark.requests]⟩
      cases cut <;> simpa [Cut.phase, Phase.step] using h
  | dispatch id =>
      cases cut with
      | nothing =>
          obtain rfl : Phase.waiting (.request id) = ph := by simpa [Cut.phase, Phase.step] using h
          exact ⟨[], .unanswered (.request id) rfl, rfl, rfl, rfl⟩
      | _ => simp [Cut.phase, Phase.step] at h
  | upgrade =>
      cases cut with
      | nothing =>
          obtain rfl : Phase.waiting .session = ph := by simpa [Cut.phase, Phase.step] using h
          exact ⟨[], .unanswered .session rfl, rfl, rfl, rfl⟩
      | _ => simp [Cut.phase, Phase.step] at h
  | piece p =>
      cases cut with
      | nothing =>
          simp only [Cut.phase, Phase.step, Phase.piece] at h
          split at h
          · rename_i part
            obtain rfl : Phase.idle = ph := by simpa using h
            refine ⟨[.interim p part], .nothing, rfl, rfl, ?_⟩
            simp [Reply.owner, Cut.owner, Mark.requests, Piece.answered, part]
          · split at h
            · rename_i part
              obtain rfl : Phase.idle = ph := by simpa using h
              refine ⟨[.whole p part.1 part.2.2], .nothing, rfl, rfl, ?_⟩
              simp [Reply.owner, Cut.owner, Mark.requests, Piece.answered, part.1, part.2.1]
            · cases h
      | unanswered o handled =>
          simp only [Cut.phase, Phase.step, Phase.piece] at h
          split at h
          · rename_i own
            obtain ⟨rfl, opens⟩ := own
            split at h
            · rename_i part
              -- a whole answer; behind the 101 of an upgrade the frames begin
              have answered : (Mark.piece p).requests = [] := by
                simp [Mark.requests, Piece.answered, handled]
              by_cases session : p.origin = .session
              · obtain rfl : Phase.session = ph := by simpa [session] using h
                exact ⟨[.whole p part opens], .frames [] (by simp), rfl, rfl,
                  by simp [Reply.owner, Cut.owner, answered]⟩
              · obtain rfl : Phase.idle = ph := by simpa [session] using h
                exact ⟨[.whole p part opens], .nothing, rfl, rfl,
                  by simp [Reply.owner, Cut.owner, answered]⟩
            · rename_i part
              obtain rfl : Phase.body p.origin = ph := by simpa using h
              exact ⟨[], .partway p [] ⟨part, opens⟩ (by simp), rfl, rfl,
                by simp [Cut.owner, Mark.requests, Piece.answered, part]⟩
            · cases h
          · cases h
      | partway head chunks opens body =>
          simp only [Cut.phase, Phase.step, Phase.piece] at h
          split at h
          · rename_i own
            split at h
            · rename_i part
              obtain rfl : Phase.body head.origin = ph := by simpa using h
              refine ⟨[], .partway head (chunks ++ [p]) opens fun c hc => ?_, rfl, rfl,
                by simp [Cut.owner, Mark.requests, Piece.answered, part]⟩
              rcases List.mem_append.mp hc with hc | hc
              · exact body c hc
              · exact List.mem_singleton.mp hc ▸ ⟨part, own⟩
            · rename_i part
              obtain rfl : Phase.idle = ph := by simpa using h
              exact ⟨[.streamed head chunks p opens body ⟨part, own⟩], .nothing, rfl,
                by simp [Cut.pieces, Mark.pieces, Reply.pieces],
                by simp [Reply.owner, Cut.owner, Mark.requests, Piece.answered, part]⟩
            · cases h
          · cases h
      | frames ps raw =>
          simp only [Cut.phase, Phase.step, Phase.piece] at h
          split at h
          · rename_i part
            obtain rfl : Phase.session = ph := by simpa using h
            refine ⟨[], .frames (ps ++ [p]) fun c hc => ?_, rfl, rfl,
              by simp [Cut.owner, Mark.requests, Piece.answered, part]⟩
            rcases List.mem_append.mp hc with hc | hc
            · exact raw c hc
            · exact List.mem_singleton.mp hc ▸ part
          · cases h

/-- An accepted run of marks is replies in a row and a cut. -/
theorem exec_split {marks : List Mark} {ph : Phase} (h : exec Phase.step marks .idle = some ph) :
    ∃ (replies : List Reply) (cut : Cut), cut.phase = ph ∧
      marks.flatMap Mark.pieces = replies.flatMap Reply.pieces ++ cut.pieces ∧
      replies.filterMap Reply.owner ++ cut.owner = marks.flatMap Mark.requests := by
  induction marks using List.reverseRecOn generalizing ph with
  | nil =>
      obtain rfl : Phase.idle = ph := by simpa [exec] using h
      exact ⟨[], .nothing, rfl, rfl, rfl⟩
  | append_singleton marks m ih =>
      rw [exec_append] at h
      obtain ⟨mid, before, h⟩ := Option.bind_eq_some_iff.mp h
      obtain ⟨ph', here, h⟩ := Option.bind_eq_some_iff.mp h
      obtain rfl : ph' = ph := by simpa [exec] using h
      obtain ⟨replies, cut, rfl, pieces, owners⟩ := ih before
      obtain ⟨more, cut', phase, pieces', owners'⟩ := cut.extend here
      refine ⟨replies ++ more, cut', phase, ?_, ?_⟩
      · simp [pieces, ← pieces', List.flatMap_append]
      · simp [List.filterMap_append, List.append_assoc, owners', ← owners, List.flatMap_append]

theorem Ev.pieces_marks (id : Nat) (ev : Ev) :
    (ev.marks id).flatMap Mark.pieces = ev.pieces := by
  cases ev with
  | write payload ka fin level =>
      cases fin <;> simp [Ev.marks, Ev.pieces, Mark.pieces, List.flatMap_append, List.flatMap_map]
  | push e =>
      simp only [Ev.marks]
      split <;> rfl
  | _ => rfl

theorem Ev.requests_marks (id : Nat) (ev : Ev) :
    (ev.marks id).flatMap Mark.requests = ev.requests := by
  cases ev with
  | write payload ka fin level =>
      cases fin <;>
        simp [Ev.marks, Ev.requests, Mark.requests, List.flatMap_append, List.flatMap_map]
  | push e =>
      simp only [Ev.marks]
      split <;> rfl
  | _ => rfl

/-- Accepted marks are replies. -/
theorem Replies.of_exec {id : Nat} {trace : List Ev} {ph : Phase}
    (h : exec Phase.step (trace.flatMap (Ev.marks id)) .idle = some ph) : Replies trace := by
  obtain ⟨replies, cut, -, pieces, owners⟩ := exec_split h
  simp only [List.flatMap_assoc, Ev.pieces_marks, Ev.requests_marks] at pieces owners
  exact ⟨replies, cut, pieces, owners⟩

/-! ### The invariant of a lane -/

/-- The head of the request's streamed answer is queued. -/
def Mark.headOf (id : Nat) : Mark → Bool
  | .queued e => e.piece.origin == .request id && e.piece.part == .head
  | _ => false

namespace Lane

/-- The handler has begun to stream its answer. -/
def started (l : Lane) (id : Nat) : Bool := l.marks.any (Mark.headOf id)

/-- A file being sent, or about to be. -/
def sending (l : Lane) : Option FileSend := (l.queue.getLast?.bind Pending.file).or l.file

/-- The phase the inbox has to lead to. -/
def due (l : Lane) : Phase :=
  match l.reqs.map Prod.fst with
  | id :: _ => if l.started id then .body (.request id) else .waiting (.request id)
  | [] =>
      match l.sending with
      | some f => .body (.request f.requestId)
      | none => if l.ws then .session else .idle

/-- What admits the moves with a cause: an error answer of the engine comes when no
answer is begun, and the runner begins an answer once and then streams it. -/
def InTurn (l : Lane) : Move → Prop
  | .guard _ => l.closing = false ∧ l.reqs = [] ∧ l.queue = [] ∧ l.file = none
  | .abort _ => l.closing = false ∧
      ∀ id, l.upload = some id → (l.find id).isSome = true ∧ l.started id = false
  | .timeOut _ => l.closing = false ∧
      ∀ id, l.inFlight = some id → (l.find id).isSome = true → l.started id = false
  | .push id e => (l.find id).isSome = true →
      (l.started id = true ↔ e.piece.part = .chunk ∨ e.piece.part = .last)
  | _ => True

/-- What is written is accepted, and what waits leads to what is due. -/
def Accepted (l : Lane) (ph : Phase) : Prop :=
  exec Phase.step l.marks .idle = some ph ∧ (l.ws = true → ph = .session) ∧
    (l.closing = false → exec Phase.piece (l.queue.map Pending.piece) ph = some l.due)

structure Orderly (l : Lane) : Prop where
  sound : l.Sound
  left : l.gone = true → l.closing = true
  own : ∀ i ∈ l.ids, i < l.nextId
  /-- Answers are queued for requests that were dispatched. -/
  old : ∀ id, l.started id = true → id < l.nextId
  accepted : ∃ ph, l.Accepted ph

theorem due_of_paid {l : Lane} (reqs : l.reqs = []) (queue : l.queue = []) (file : l.file = none)
    (http : l.ws = false) : l.due = .idle := by
  simp [due, sending, reqs, queue, file, http]

theorem due_of_file {l : Lane} {f : FileSend} (reqs : l.reqs = []) (queue : l.queue = [])
    (file : l.file = some f) : l.due = .body (.request f.requestId) := by
  simp [due, sending, reqs, queue, file]

/-- Nothing waits and nothing is due. -/
theorem led_of_paid {l : Lane} (reqs : l.reqs = []) (queue : l.queue = []) (file : l.file = none)
    (http : l.ws = false) : exec Phase.piece (l.queue.map Pending.piece) .idle = some l.due := by
  rw [due_of_paid reqs queue file http, queue]
  rfl

/-- Nothing waits, and a file is being sent. -/
theorem led_of_file {l : Lane} {f : FileSend} (reqs : l.reqs = []) (queue : l.queue = [])
    (file : l.file = some f) :
    exec Phase.piece (l.queue.map Pending.piece) (.body (.request f.requestId)) = some l.due := by
  rw [due_of_file reqs queue file, queue]
  rfl

/-- A single request is the one found. -/
theorem reqs_of_find {l : Lane} {id : Nat} {loc : ReqLoc} (found : l.find id = some loc)
    (one : l.reqs.length = 1) : l.reqs = [(id, loc)] := by
  obtain ⟨e, he, rfl⟩ := Option.map_eq_some_iff.mp found
  obtain ⟨e', he'⟩ := List.length_eq_one_iff.mp one
  have mem := List.mem_of_find?_eq_some he
  obtain rfl : e = e' := by simpa [he'] using mem
  have key : e.1 = id := by simpa using List.find?_some he
  rw [he', ← key]

/-- Erasing the only request. -/
theorem erase_single {l : Lane} {id : Nat} {loc : ReqLoc} (h : l.reqs = [(id, loc)]) :
    (l.erase id).reqs = [] := by
  simp [erase, h]

theorem due_of_reqs {l : Lane} {id : Nat} {loc : ReqLoc} (h : l.reqs = [(id, loc)]) :
    l.due = if l.started id then .body (.request id) else .waiting (.request id) := by
  simp [due, h]

theorem due_of_session {l : Lane} (hs : l.Sound) (ws : l.ws = true) : l.due = .session := by
  obtain ⟨zero, -⟩ := hs.session ws
  simp only [credit, Nat.add_eq_zero_iff] at zero
  obtain ⟨⟨⟨reqs, queue⟩, file⟩, -⟩ := zero
  have last : l.queue.getLast?.bind Pending.file = none := by
    cases h : l.queue.getLast? with
    | none => rfl
    | some e =>
        have plain := Sound.queue_plain queue e (List.mem_of_getLast? h)
        simp only [Pending.credits, Bool.or_eq_false_iff] at plain
        simpa using plain.1
  simp [due, sending, List.length_eq_zero_iff.mp reqs, last, Sound.file_none file, ws]

namespace Orderly

variable {l l' : Lane} {m : Move} {ph : Phase}

/-- Between replies while the gate is open. -/
theorem idle_of_open (ho : l.Orderly) (acc : l.Accepted ph) (gate : l.open) : ph = .idle := by
  obtain ⟨reqs, queue, file, -, http⟩ := ho.sound.of_open gate.1
  have led := acc.2.2 gate.2
  rw [due_of_paid reqs queue file http, queue] at led
  simpa [exec] using led

/-- Before the answer of a request whose stream has not begun. -/
theorem waiting_of_find (ho : l.Orderly) (acc : l.Accepted ph) (live : l.closing = false)
    {id : Nat} {loc : ReqLoc} (found : l.find id = some loc) (quiet : l.started id = false) :
    ph = .waiting (.request id) ∧ l.queue = [] := by
  have led := acc.2.2 live
  rw [due_of_reqs (reqs_of_find found (ho.sound.of_find found).1), quiet] at led
  obtain ⟨queue, hph⟩ := Phase.exec_waiting led
  exact ⟨hph, List.map_eq_nil_iff.mp queue⟩

theorem body_of_file (ho : l.Orderly) (acc : l.Accepted ph) (live : l.closing = false)
    {f : FileSend} (file : l.file = some f) : ph = .body (.request f.requestId) := by
  obtain ⟨reqs, queue, -⟩ := ho.sound.of_file file
  have led := acc.2.2 live
  rw [due_of_file reqs queue file, queue] at led
  simpa [exec] using led

/-- A move adds marks that the phase accepts. -/
theorem extend (ho : l.Orderly) (hstep : l.Step m l') {new : List Mark}
    (marks : l'.marks = l.marks ++ new) (left : l'.gone = true → l'.closing = true)
    (old : ∀ id, new.any (Mark.headOf id) = true → id < l.nextId)
    (accepts : ∀ ph, l.Accepted ph → ∃ ph', exec Phase.step new ph = some ph' ∧
      (l'.ws = true → ph' = .session) ∧
      (l'.closing = false → exec Phase.piece (l'.queue.map Pending.piece) ph' = some l'.due)) :
    l'.Orderly := by
  obtain ⟨next, ids⟩ := hstep.ids
  refine ⟨hstep.sound ho.sound, left, fun i hi => ?_, fun id h => ?_, ?_⟩
  · rcases ids i hi with h | ⟨-, h⟩
    · exact (ho.own i h).trans_le next
    · exact h
  · simp only [started, marks, List.any_append, Bool.or_eq_true] at h
    exact (h.elim (ho.old id) (old id)).trans_le next
  · obtain ⟨ph, acc⟩ := ho.accepted
    obtain ⟨ph', hnew, ws, led⟩ := accepts ph acc
    refine ⟨ph', ?_, ws, led⟩
    rw [marks, exec_append, acc.1]
    exact hnew

/-- A move that writes and queues nothing, and leaves what is due or closes. -/
theorem silent (ho : l.Orderly) (hstep : l.Step m l') (marks : l'.marks = l.marks)
    (left : l'.gone = true → l'.closing = true) (ws : l'.ws = l.ws)
    (due : l'.closing = false → l.closing = false ∧ l'.queue = l.queue ∧ l'.due = l.due) :
    l'.Orderly := by
  refine ho.extend hstep (show _ = l.marks ++ [] by simp [marks]) left (by simp) fun ph acc => ?_
  refine ⟨ph, rfl, fun h => acc.2.1 (ws ▸ h), fun live => ?_⟩
  obtain ⟨live', queue, hdue⟩ := due live
  rw [queue, hdue]
  exact acc.2.2 live'

/-- A move that writes pieces the phase accepts. -/
theorem wrote (ho : l.Orderly) (hstep : l.Step m l') {ps : List Piece} {fin : Option Bool}
    (marks : l'.marks = l.marks ++ (ps.map .piece ++ fin.toList.map .finish))
    (gone : l'.gone = l.gone) (closing : l'.closing = l.closing)
    (accepts : ∀ ph, l.Accepted ph → ∃ ph', exec Phase.piece ps ph = some ph' ∧
      (l'.ws = true → ph' = .session) ∧
      (l.closing = false → exec Phase.piece (l'.queue.map Pending.piece) ph' = some l'.due)) :
    l'.Orderly := by
  refine ho.extend hstep marks (by rw [gone, closing]; exact ho.left) (fun id h => ?_)
    fun ph acc => ?_
  · simp [Mark.headOf] at h
  · obtain ⟨ph', here, ws, led⟩ := accepts ph acc
    exact ⟨ph', by rw [Phase.exec_write, here], ws, fun live => led (closing ▸ live)⟩

/-- A move that queues an entry the due phase accepts. -/
theorem queued (ho : l.Orderly) (hstep : l.Step m l') {e : Pending}
    (marks : l'.marks = l.marks ++ [.queued e]) (queue : l'.queue = l.queue ++ [e])
    (gone : l'.gone = l.gone) (closing : l'.closing = l.closing) (ws : l'.ws = l.ws)
    (old : ∀ id, e.piece.origin = .request id → e.piece.part = .head → id < l.nextId)
    (accepts : l.closing = false → l.due.piece e.piece = some l'.due) : l'.Orderly := by
  refine ho.extend hstep marks (by rw [gone, closing]; exact ho.left) (fun id h => ?_)
    fun ph acc => ⟨ph, ?_, fun h => acc.2.1 (ws ▸ h), fun live => ?_⟩
  · simp only [List.any_cons, List.any_nil, Bool.or_false, Mark.headOf, Bool.and_eq_true,
      beq_iff_eq] at h
    exact old id h.1 h.2
  · cases ph <;> rfl
  · rw [closing] at live
    rw [queue, List.map_append, exec_append, acc.2.2 live]
    simpa [exec] using accepts live

end Orderly

/-- Writing does not begin a stream. -/
theorem started_wrote {l l' : Lane} {ps : List Piece} {fin : Option Bool}
    (marks : l'.marks = l.marks ++ (ps.map .piece ++ fin.toList.map .finish)) (id : Nat) :
    l'.started id = l.started id := by
  have pieces : ps.any (fun p => Mark.headOf id (.piece p)) = false := by simp [Mark.headOf]
  have fins : fin.toList.any (fun ka => Mark.headOf id (.finish ka)) = false := by
    simp [Mark.headOf]
  simp only [started, marks, List.any_append, List.any_map, Function.comp_def, pieces, fins,
    Bool.or_false]

/-- What a request's entry does to the phase it is due at, while the stream goes on. -/
theorem due_push {l l' : Lane} {id : Nat} {loc : ReqLoc} {e : Pending}
    (reqs : l.reqs = [(id, loc)]) (shaped : e.shaped id loc = true) (more : e.isLast = false)
    (turn : l.started id = true ↔ e.piece.part = .chunk ∨ e.piece.part = .last)
    (reqs' : l'.reqs = l.reqs) (marks : l'.marks = l.marks ++ [.queued e]) :
    l.due.piece e.piece = some l'.due := by
  simp only [Pending.isLast, Bool.or_eq_false_iff] at more
  have file : e.file = none := by simpa using more.2
  rw [due_of_reqs reqs, due_of_reqs (reqs'.trans reqs)]
  simp only [Pending.shaped, file, Bool.and_eq_true, beq_iff_eq] at shaped
  obtain ⟨⟨⟨origin, -⟩, -⟩, shape⟩ := shaped
  cases part : e.piece.part with
  | head =>
      have idle : l.started id = false := by simpa [part] using turn
      have begun : l'.started id = true := by simp [started, marks, Mark.headOf, origin, part]
      simp only [part, more.1, Bool.not_false, Bool.true_and] at shape
      rw [idle, begun]
      exact Phase.waiting_head part origin shape
  | chunk =>
      have begun : l.started id = true := by simpa [part] using turn
      have kept : l'.started id = true := by
        simp only [started, marks, List.any_append, Bool.or_eq_true]
        exact .inl begun
      rw [begun, kept]
      exact Phase.body_chunk part origin
  | _ => simp [part, more.1] at shape

/-- The entry that ends the request's part in the inbox. -/
theorem due_pushLast {l l' : Lane} {id : Nat} {loc : ReqLoc} {e : Pending}
    (reqs : l.reqs = [(id, loc)]) (shaped : e.shaped id loc = true) (last : e.isLast = true)
    (turn : l.started id = true ↔ e.piece.part = .chunk ∨ e.piece.part = .last)
    (reqs' : l'.reqs = []) (queue : l'.queue = l.queue ++ [e]) (file : l'.file = none)
    (http : l'.ws = false) : l.due.piece e.piece = some l'.due := by
  rw [due_of_reqs reqs]
  simp only [Pending.shaped, Bool.and_eq_true, beq_iff_eq] at shaped
  obtain ⟨⟨⟨origin, -⟩, -⟩, shape⟩ := shaped
  cases hf : e.file with
  | some f =>
      have due' : l'.due = .body (.request f.requestId) := by
        simp [due, sending, reqs', queue, hf]
      rw [hf] at shape
      cases part : e.piece.part with
      | head =>
          have idle : l.started id = false := by simpa [part] using turn
          simp only [part, Bool.and_eq_true, beq_iff_eq] at shape
          rw [idle, due', shape.1.2]
          exact Phase.waiting_head part origin shape.1.1.2
      | _ => simp [part] at shape
  | none =>
      have due' : l'.due = .idle := by simp [due, sending, reqs', queue, hf, file, http]
      have fin : e.finish = true := by simpa [Pending.isLast, hf] using last
      rw [hf] at shape
      cases part : e.piece.part with
      | whole =>
          have idle : l.started id = false := by simpa [part] using turn
          simp only [part, Bool.and_eq_true] at shape
          rw [idle, due']
          exact Phase.waiting_whole part origin shape.2
      | last =>
          have begun : l.started id = true := by simpa [part] using turn
          rw [begun, due']
          exact Phase.body_last part origin
      | _ => simp [part, fin] at shape

/-- Draining an entry without a file changes nothing that is due. -/
theorem due_drain {l l' : Lane} {e : Pending} {rest : List Pending} (queue : l.queue = e :: rest)
    (file : e.file = none) (queue' : l'.queue = rest) (reqs : l'.reqs = l.reqs)
    (file' : l'.file = l.file) (ws : l'.ws = l.ws)
    (started : ∀ id, l'.started id = l.started id) : l'.due = l.due := by
  have sending : l'.sending = l.sending := by
    simp only [Lane.sending, queue, queue', file']
    cases rest with
    | nil => simp [file]
    | cons e' rest => simp
  simp only [due, reqs, sending, ws, started]

/-- An error answer to a request whose stream has not begun. -/
theorem Orderly.refused {l l' : Lane} {m : Move} {p : Piece} {id : Nat} {loc : ReqLoc}
    (ho : l.Orderly) (hstep : l.Step m l') (live : l.closing = false)
    (found : l.find id = some loc) (quiet : l.started id = false) (part : p.part = .whole)
    (origin : p.origin = .request id) (opens : p.opens = true)
    (marks : l'.marks = l.marks ++ ([p].map .piece ++ (some false).toList.map .finish))
    (reqs : l'.reqs = (l.erase id).reqs) (queue : l'.queue = l.queue) (file : l'.file = l.file)
    (gone : l'.gone = l.gone) (closing : l'.closing = l.closing) (ws : l'.ws = l.ws) :
    l'.Orderly := by
  obtain ⟨one, -, none, -, -, http⟩ := ho.sound.of_find found
  refine ho.wrote hstep marks gone closing fun ph acc => ?_
  obtain ⟨rfl, empty⟩ := ho.waiting_of_find acc live found quiet
  exact ⟨.idle, by simp [exec, Phase.waiting_whole part origin opens], by simp [ws, http],
    fun _ => led_of_paid (reqs.trans (erase_single (reqs_of_find found one)))
      (queue.trans empty) (file.trans none) (ws.trans http)⟩

/-- A request is dispatched. -/
theorem Orderly.dispatched {l l' : Lane} {m : Move} {loc : ReqLoc} (ho : l.Orderly)
    (hstep : l.Step m l') (gate : l.ready) (marks : l'.marks = l.marks ++ [.dispatch l.nextId])
    (reqs : l'.reqs = l.reqs ++ [(l.nextId, loc)]) (queue : l'.queue = l.queue)
    (gone : l'.gone = l.gone) (closing : l'.closing = l.closing) (ws : l'.ws = l.ws) :
    l'.Orderly := by
  obtain ⟨none, empty, -, -, http⟩ := ho.sound.of_open gate.1.1
  refine ho.extend hstep marks (by rw [gone, closing]; exact ho.left) (by simp [Mark.headOf])
    fun ph acc => ?_
  obtain rfl := ho.idle_of_open acc gate.1
  refine ⟨.waiting (.request l.nextId), rfl, by simp [ws, http], fun _ => ?_⟩
  have quiet : l'.started l.nextId = false := by
    by_contra h
    simp only [started, marks, List.any_append, Bool.not_eq_false] at h
    exact absurd (ho.old l.nextId (by simpa [Mark.headOf, started] using h)) (lt_irrefl _)
  rw [due_of_reqs (by rw [reqs, none, List.nil_append]), quiet, queue, empty]
  rfl

/-- Frames of a session. -/
theorem Orderly.framed {l l' : Lane} {m : Move} {p : Piece} {fin : Option Bool} (ho : l.Orderly)
    (hstep : l.Step m l') (session : l.ws = true) (part : p.part = .raw)
    (marks : l'.marks = l.marks ++ ([p].map .piece ++ fin.toList.map .finish))
    (queue : l'.queue = l.queue) (gone : l'.gone = l.gone) (closing : l'.closing = l.closing)
    (ws : l'.ws = l.ws) : l'.Orderly := by
  refine ho.wrote hstep marks gone closing fun ph acc => ?_
  obtain rfl := acc.2.1 session
  refine ⟨.session, by simp [exec, Phase.session_raw part], fun _ => rfl, fun live => ?_⟩
  have led := acc.2.2 live
  rw [due_of_session ho.sound session] at led
  rw [queue, due_of_session (hstep.sound ho.sound) (ws.trans session), led]

/-- An answer call is for a request that was dispatched. -/
theorem Orderly.shaped_old {l : Lane} {id : Nat} {loc : ReqLoc} {e : Pending} (ho : l.Orderly)
    (found : l.find id = some loc) (shaped : e.shaped id loc = true) :
    ∀ i, e.piece.origin = .request i → e.piece.part = .head → i < l.nextId := by
  intro i hi _
  simp only [Pending.shaped, Bool.and_eq_true, beq_iff_eq] at shaped
  obtain rfl : id = i := by simpa using shaped.1.1.1.symm.trans hi
  refine ho.own id (mem_ids.mpr (.inl ?_))
  rw [reqs_of_find found (ho.sound.of_find found).1]
  simp

/-- Every admitted move keeps the stream in order. -/
theorem Step.orderly {l l' : Lane} {m : Move} (hstep : l.Step m l') (ho : l.Orderly)
    (hok : l.InTurn m) : l'.Orderly := by
  cases hstep with
  | endUpload => exact ho.silent .endUpload rfl ho.left rfl fun live => ⟨live, rfl, rfl⟩
  | close => exact ho.silent .close rfl (fun _ => rfl) rfl (by simp)
  | leave http shut =>
      exact ho.silent (.leave http shut) rfl (fun _ => shut) rfl (by simp [shut])
  | leaveSession ws shut =>
      exact ho.silent (.leaveSession ws shut) rfl (fun _ => shut) rfl (by simp [shut])
  | silence inFlight => exact ho.silent (.silence inFlight) rfl (fun _ => rfl) rfl (by simp)
  | @flip id =>
      refine ho.silent .flip rfl ho.left rfl fun live => ⟨live, rfl, ?_⟩
      simp only [due, map_fst_flip]
      rfl
  | drop queue shut =>
      have closing : l.closing = true := shut.elim ho.left fun h => h
      exact ho.silent (.drop queue shut) rfl ho.left rfl (by simp [closing])
  | landed fin gate =>
      exact ho.silent (.landed fin gate) rfl ho.left rfl fun live => ⟨live, rfl, rfl⟩
  | landedLast fin shut => exact ho.silent (.landedLast fin shut) rfl (fun _ => rfl) rfl (by simp)
  | lost fin => exact ho.silent (.lost fin) rfl (fun _ => rfl) rfl (by simp)
  | fileLost => exact ho.silent .fileLost rfl (fun _ => rfl) rfl (by simp)
  | skipId => exact ho.silent .skipId rfl ho.left rfl fun live => ⟨live, rfl, rfl⟩
  | @interim p gate part =>
      obtain ⟨reqs, queue, file, -, http⟩ := ho.sound.of_open gate.1.1
      refine ho.extend (.interim gate part) rfl ho.left (by simp [Mark.headOf]) fun ph acc => ?_
      obtain rfl := ho.idle_of_open acc gate.1
      exact ⟨.idle, by simp [exec, Phase.step, Phase.idle_interim part], by simp [http],
        fun _ => led_of_paid reqs queue file http⟩
  | @answer p ka gate part origin opens =>
      obtain ⟨reqs, queue, file, -, http⟩ := ho.sound.of_open gate.1
      have direct : p.origin.direct = true := by rcases origin with h | h <;> rw [h] <;> rfl
      refine ho.wrote (.answer gate part origin opens) rfl rfl rfl fun ph acc => ?_
      obtain rfl := ho.idle_of_open acc gate
      exact ⟨.idle, by simp [exec, Phase.idle_whole part direct opens],
        by simp [write, http], fun _ => led_of_paid reqs queue file http⟩
  | dispatch gate =>
      exact ho.dispatched (.dispatch gate) gate rfl rfl rfl rfl rfl rfl
  | dispatchStream gate =>
      exact ho.dispatched (.dispatchStream gate) gate rfl rfl rfl rfl rfl rfl
  | @refuseUpload p gate part origin opens =>
      obtain ⟨reqs, queue, file, -, http⟩ := ho.sound.of_open gate.1.1
      refine ho.extend (.refuseUpload gate part origin opens)
        (show _ = l.marks ++ [.dispatch l.nextId, .piece p, .finish false] by
          simp [write, register]) ho.left (by simp [Mark.headOf]) fun ph acc => ?_
      obtain rfl := ho.idle_of_open acc gate.1
      exact ⟨.idle, by simp [exec, Phase.step, Phase.waiting_whole part origin opens],
        by simp [write, register, http],
        fun _ => led_of_paid (by simp [write, register, reqs]) queue file http⟩
  | @upgrade p gate part origin opens =>
      obtain ⟨reqs, queue, file, -, http⟩ := ho.sound.of_open gate.1.1
      have hstep := Step.upgrade gate part origin opens
      refine ho.extend hstep (show _ = l.marks ++ [.upgrade, .piece p] by simp [write]) ho.left
        (by simp [Mark.headOf]) fun ph acc => ?_
      obtain rfl := ho.idle_of_open acc gate.1
      refine ⟨.session, by simp [exec, Phase.step, Phase.piece, part, origin, opens],
        fun _ => rfl, fun _ => ?_⟩
      rw [due_of_session (hstep.sound ho.sound) rfl]
      simp [write, queue, exec]
  | @guard p busy http part origin opens =>
      obtain ⟨live, reqs, queue, file⟩ := hok
      refine ho.wrote (.guard busy http part origin opens) rfl rfl rfl fun ph acc => ?_
      have led := acc.2.2 live
      rw [due_of_paid reqs queue file http, queue] at led
      obtain rfl : ph = .idle := by simpa [exec] using led
      exact ⟨.idle, by simp [exec, Phase.idle_whole part (by rw [origin]; rfl) opens],
        by simp [write, http], fun _ => led_of_paid reqs queue file http⟩
  | @abort p id upload part origin opens =>
      obtain ⟨live, turn⟩ := hok
      obtain ⟨found, quiet⟩ := turn id upload
      obtain ⟨loc, found⟩ := Option.isSome_iff_exists.mp found
      exact ho.refused (.abort upload part origin opens) live found quiet part origin opens rfl rfl
        rfl rfl rfl rfl rfl
  | @timeOut p id inFlight found part origin opens =>
      obtain ⟨live, turn⟩ := hok
      obtain ⟨loc, hloc⟩ := Option.isSome_iff_exists.mp found
      exact ho.refused (.timeOut inFlight found part origin opens) live hloc
        (turn id inFlight found) part origin opens rfl rfl rfl rfl rfl rfl rfl
  | @push id loc e found shaped more =>
      obtain ⟨one, -, -, -, -, http⟩ := ho.sound.of_find found
      refine ho.queued (.push found shaped more) rfl rfl rfl rfl rfl (ho.shaped_old found shaped)
        fun _ => due_push (reqs_of_find found one) shaped more (hok (by simp [found])) rfl rfl
  | @pushLast id loc e found shaped last =>
      obtain ⟨one, -, file, -, -, http⟩ := ho.sound.of_find found
      refine ho.queued (.pushLast found shaped last) rfl rfl rfl rfl rfl
        (ho.shaped_old found shaped) fun _ => ?_
      exact due_pushLast (reqs_of_find found one) shaped last (hok (by simp [found]))
        (erase_single (reqs_of_find found one)) rfl file http
  | @drain e rest queue live gate file =>
      have hstep := Step.drain queue live gate file
      refine ho.wrote hstep rfl rfl rfl fun ph acc => ?_
      have led := acc.2.2 gate
      rw [queue, List.map_cons, exec] at led
      obtain ⟨ph', here, led⟩ := Option.bind_eq_some_iff.mp led
      refine ⟨ph', by simp [exec, here], fun ws => ?_, fun _ => ?_⟩
      · -- a session stays one
        obtain rfl := acc.2.1 ws
        simp only [Phase.piece] at here
        split at here
        · simpa using here.symm
        · cases here
      · refine led.trans (congrArg some (Eq.symm ?_))
        exact due_drain queue file rfl rfl rfl rfl (started_wrote rfl)
  | @drainFile e f rest queue live gate file =>
      obtain ⟨reqs, rfl, none, -, http⟩ :=
        ho.sound.of_credits queue (by simp [Pending.credits, file])
      refine ho.wrote (.drainFile queue live gate file) rfl rfl rfl fun ph acc => ?_
      have led := acc.2.2 gate
      have due : l.due = .body (.request f.requestId) := by
        simp [Lane.due, sending, reqs, queue, file]
      rw [queue, due] at led
      exact ⟨.body (.request f.requestId), by simpa using led, by simp [write, http],
        fun _ => led_of_file reqs rfl rfl⟩
  | @fileChunk p f offset remaining file gate origin part =>
      obtain ⟨reqs, queue, -, -, http⟩ := ho.sound.of_file file
      refine ho.wrote (.fileChunk file gate origin part) rfl rfl rfl fun ph acc => ?_
      obtain rfl := ho.body_of_file acc gate file
      exact ⟨.body (.request f.requestId), by simp [exec, Phase.body_chunk part origin],
        by simp [write, http], fun _ =>
          led_of_file (f := ⟨f.requestId, offset, remaining, f.keepAlive⟩) reqs queue rfl⟩
  | @fileEnd p f file gate origin part =>
      obtain ⟨reqs, queue, -, -, http⟩ := ho.sound.of_file file
      refine ho.wrote (.fileEnd file gate origin part) rfl rfl rfl fun ph acc => ?_
      obtain rfl := ho.body_of_file acc gate file
      exact ⟨.idle, by simp [exec, Phase.body_last part origin], by simp [write, http],
        fun _ => led_of_paid reqs queue rfl http⟩
  | sessionWrite ws part => exact ho.framed (.sessionWrite ws part) ws part rfl rfl rfl rfl rfl
  | sessionClose ws part => exact ho.framed (.sessionClose ws part) ws part rfl rfl rfl rfl rfl
  | @sessionPush e ws part file closes =>
      have hstep := Step.sessionPush ws part file closes
      refine ho.queued hstep rfl rfl rfl rfl rfl (by simp [part]) fun _ => ?_
      rw [due_of_session ho.sound ws, due_of_session (hstep.sound ho.sound) ws]
      exact Phase.session_raw part

end Lane

/-! ### The reactor's stream -/

/-- The runner's side, for the requests of this connection: an answer is begun once, and
chunks follow only a stream that was begun. -/
def callsInTurn (r : Reactor) : Act → Bool
  | .respond id _ _ _ | .respondFile id _ _ _ _ _ | .startStream id _ _ =>
      (r.lane.find id).isNone || !r.lane.started id
  | .sendStreamChunk id _ _ => (r.lane.find id).isNone || r.lane.started id
  | _ => true

/-- The engine's side: the busy-buffer guard trips while nothing is owed, the upload cap
and the timer refuse a request only before its answer is begun. -/
def refusesUnanswered (env : Env) (r : Reactor) : Act → Bool
  | .read data =>
      (!(r.received data).busyBufferFull env ||
        (r.ownReqs.isEmpty && r.ownQueue.isEmpty && r.conn.file.isNone)) &&
      (!r.uploadOverCap data ||
        ((r.lane.find r.conn.streamReqId).isSome && !r.lane.started r.conn.streamReqId))
  | .sweep =>
      !r.overdue env || r.conn.reqIdInFlight.all fun id =>
        (r.lane.find id).isNone || !r.lane.started id
  | _ => true

theorem find_isSome_congr {l l' : Lane} (h : l.reqs.map Prod.fst = l'.reqs.map Prod.fst)
    (id : Nat) : (l.find id).isSome = (l'.find id).isSome := by
  have key : ∀ l : Lane, (l.find id).isSome = (l.reqs.map Prod.fst).any (· == id) := by
    intro l
    rw [Bool.eq_iff_iff]
    simp [Lane.find, List.find?_isSome]
  rw [key, key, h]

theorem inTurn_causes (env : Env) {r r' : Reactor} {a : Act}
    (h : (callsInTurn r a && refusesUnanswered env r a) = true)
    (hstep : step env r a = some r') : Causes env Lane.InTurn r a where
  guard data p ha full := by
    subst ha
    simp only [step, Option.ite_none_right_eq_some] at hstep
    simp only [callsInTurn, refusesUnanswered, full, Bool.true_and, Bool.not_true, Bool.false_or,
      Bool.and_eq_true, List.isEmpty_iff, Option.isNone_iff_eq_none] at h
    exact ⟨eq_false_of_ne_true hstep.1.1.1, h.1.1.1, h.1.1.2, h.1.2⟩
  abort data p ha beyond := by
    subst ha
    simp only [step, Option.ite_none_right_eq_some] at hstep
    simp only [callsInTurn, refusesUnanswered, beyond, Bool.true_and, Bool.not_true, Bool.false_or,
      Bool.and_eq_true, Bool.not_eq_true'] at h
    refine ⟨eq_false_of_ne_true hstep.1.1.1, fun id upload => ?_⟩
    have streaming : r.conn.streamingBody = true := by
      simp only [Reactor.uploadOverCap, Bool.and_eq_true] at beyond
      exact beyond.1.1
    obtain rfl : r.conn.streamReqId = id := by
      simpa [Reactor.lane, uploadOf, streaming] using upload
    exact h.2
  timeOut l p ha late live marks reqs inFlight := by
    subst ha
    refine ⟨live, fun id hid found => ?_⟩
    rw [find_isSome_congr reqs] at found
    have flying : r.conn.reqIdInFlight = some id := inFlight.symm.trans hid
    have begun : l.started id = r.lane.started id := by simp only [Lane.started, marks]
    simpa [callsInTurn, refusesUnanswered, late, flying, begun,
      Option.isNone_eq_false_iff.mpr found] using h
  opening id e ha part := by
    intro found
    have quiet : r.lane.started id = false := by
      cases a <;> simp only [Act.opens, beq_iff_eq, Bool.false_eq_true] at ha
      all_goals
        subst ha
        simpa [callsInTurn, refusesUnanswered, Option.isNone_eq_false_iff.mpr found] using h
    rcases part with part | part <;> simp [quiet, part]
  chunk id bytes last e ha part := by
    subst ha
    intro found
    have begun : r.lane.started id = true := by
      simpa [callsInTurn, refusesUnanswered, Option.isNone_eq_false_iff.mpr found] using h
    simpa [begun] using part

/-- A request is answered from its stream, chunk by chunk, and the next one by the engine. -/
def streaming : List Act :=
  [.read (ascii "GET / HTTP/1.1\r\nHost: a\r\n\r\nGET /nowhere HTTP/1.0\r\n\r\n"),
    .startStream 1 200 [], .async, .written true [], .tick 60000, .sweep, .sendStreamChunk 1 [97] false,
    .sendStreamChunk 1 [] true, .async, .written true [], .written true []]

/-- The handler begins a stream; before the loop sees it the deadline passes. -/
def cutIn : List Act :=
  [.read (ascii "GET / HTTP/1.1\r\nHost: a\r\n\r\n"), .startStream 1 200 [], .tick 30000, .sweep,
    .async]

end NitroServer.Engine
