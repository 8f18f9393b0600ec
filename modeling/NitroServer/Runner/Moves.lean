/-
What the runner can do (`Runner.Machine`), move by move: every callback takes at most one payload
off the engine's hands and then makes a sequence of moves, so that a property kept by each of these
holds in every state of every run.

* `Take` — a payload is taken; `Move` — one table or output at a time, under the conditions the
  callbacks check.
* `step_moves` — a step takes at most one payload, then moves.
* `reaches_moves` — the invariant rule over takes and moves.
-/

import NitroServer.Runner.Slots

namespace NitroServer.Runner

open Bridge (DartString)
open Engine (Bytes)
open Lib

/-- The request, or the connection, whose payload an action hands over, and the frame. -/
def Act.hands {U : UserCode} : Act U → Option (Int64 × Option Frame)
  | .chunk id (.data _) | .chunk id (.error _) => some (id, none)
  | .wsMessage id frame => some (id, some frame)
  | _ => none

/-- The output for a payload that is taken. -/
def Output.taking {U : UserCode} (id : Int64) : Option Frame → Output U
  | none => .received id
  | some frame => .receivedFrame id frame

/-- A payload is taken. -/
def Output.takes {U : UserCode} : Output U → Bool
  | .received _ | .receivedFrame .. => true
  | _ => false

namespace Machine

variable {U : UserCode}

/-- What becomes of a frame of `id`: it is delivered, too late, or parked. -/
inductive Heard (host : Host U) (id : Int64) (frame : Frame) : Machine U → Machine U → Prop where
  | live (s : Machine U) {i : Nat} : s.wsSessions.find id = some i →
      Heard host id frame s (s.deliverWs host i frame)
  | late (s : Machine U) : s.wsSessions.find id = none → id ∈ s.wsOpened.keys →
      Heard host id frame s s
  | parked (s : Machine U) : s.wsSessions.find id = none → id ∉ s.wsOpened.keys →
      Heard host id frame s
        { s with wsEarly := s.wsEarly.set id ((s.wsEarly.find id).getD [] ++ [frame]) }.boundWsEarly

/-- A payload of `id` is taken off the engine's hands, of a body or of a frame. -/
inductive Take (host : Host U) (id : Int64) : Option Frame → Machine U → Machine U → Prop where
  | receive (s : Machine U) : Take host id none s (s.copyChunk id)
  | stale (s : Machine U) : id ∈ s.completed.keys →
      Take host id none s ((s.emit (.received id)).emit (.ack id 1))
  | frame {s t : Machine U} (frame : Frame) : Heard host id frame (s.ackFrame id frame) t →
      Take host id (some frame) s t

/-- One move on the sessions. -/
inductive WsMove (host : Host U) : Machine U → Machine U → Prop where
  | finish (s : Machine U) (i : Nat) (code : Int) : WsMove host s (s.finish i code)
  | run (s : Machine U) {i : Nat} {session : Session} : s.sessions[i]? = some session →
      session.phase = .gating → WsMove host s (s.runWs host session.id i)
  | turnAway (s : Machine U) {i : Nat} {session : Session} : s.sessions[i]? = some session →
      session.phase = .gating →
      WsMove host s ({ s with wsEarly := s.wsEarly.erase session.id }.setPhase i .turnedAway)
  | consume {s t : Machine U} {i : Nat} : s.wsConsume i = some t → WsMove host s t
  | send (s : Machine U) (i : Nat) (payload : Bytes) (binary : Bool) :
      WsMove host s (s.wsSend host i payload binary)

/-- One move of the runner. -/
inductive Move (host : Host U) : Machine U → Machine U → Prop where
  | acknowledge (s : Machine U) (id : Int64) : Move host s (s.ackNow id)
  | parkData (s : Machine U) {id : Int64} (bytes : Bytes) : s.pending.find id = none →
      Move host s
        { s with early := s.early.set id ((s.early.find id).getD [] ++ [bytes]) }.boundEarly
  | parkError (s : Machine U) {id : Int64} (message : Bytes) : s.pending.find id = none →
      Move host s { s with earlyErrors := s.earlyErrors.set id message }.boundEarly
  | parkEnd (s : Machine U) {id : Int64} : s.pending.find id = none →
      Move host s { s with earlyComplete := s.earlyComplete.set id () }.boundEarly
  | take (s : Machine U) (head : Head) : head.requestId ∉ s.completed.keys →
      s.pending.find head.requestId = none → Move host s (s.takeIn head)
  | takeEnd (s : Machine U) (id : Int64) :
      Move host s { s with earlyComplete := s.earlyComplete.erase id }
  | put (s : Machine U) {id : Int64} {p : Pending} (p' : Pending) : s.pending.find id = some p →
      p'.dispatched = p.dispatched → Move host s (s.putPending id p')
  | upload (s : Machine U) (uploads : Table Int64 Upload) :
      Move host s { s with uploads := uploads }
  | run (s : Machine U) {id : Int64} {p : Pending} (answerer : Answerer U) (context : Context) :
      s.pending.find id = some p → p.dispatched = false →
      Move host s
        ((s.putPending id { p with dispatched := true }).runHandler id answerer context)
  | upgrade (s : Machine U) {id : Int64} {p : Pending} (context : Context) :
      s.pending.find id = some p → p.dispatched = false →
      Move host s ((s.putPending id { p with dispatched := true }).openWs host id context)
  | drop (s : Machine U) {id : Int64} {p : Pending} (p' : Pending) : s.pending.find id = some p →
      Move host s ((s.putPending id p').complete id)
  | complete (s : Machine U) (id : Int64) : Move host s (s.complete id)
  | ws {s t : Machine U} : WsMove host s t → Move host s t
  | note (s : Machine U) (id : Int64) (message : DartString) :
      Move host s (s.emit (.event id message))
  | late (s : Machine U) {id : Int64} : id ∈ s.waiting →
      Move host s { s with waiting := s.waiting.erase id }
  | answer (s : Machine U) {id : Int64} (response : Response) : id ∈ s.waiting →
      (id ∈ s.completed.keys → (s.pending.find id).isSome = true) →
      Move host s ({ s with waiting := s.waiting.erase id }.emit (.answer id response))
  | openStream (s : Machine U) (id : Int64) :
      Move host s { s with outbound := s.outbound.set id () }
  | dropStream (s : Machine U) (id : Int64) :
      Move host s { s with outbound := s.outbound.erase id }
  | lastChunk (s : Machine U) (id : Int64) : Move host s (s.emit (.lastChunk id))
  | call (s : Machine U) (tables : Tables U) : Move host s { s with tables := tables }
  | close (s : Machine U) : Move host s s.close

/-- A sequence of moves. -/
abbrev Moves (host : Host U) : Machine U → Machine U → Prop := Relation.ReflTransGen (Move host)

variable {host : Host U} {s t : Machine U} {id : Int64}

theorem Move.one (h : Move host s t) : Moves host s t := .single h

theorem Heard.wsOnly {frame : Frame} (h : Heard host id frame s t) : WsOnly s t := by
  cases h with
  | live => exact ws_deliverWs s _ frame
  | late => exact .refl s
  | parked => exact WsOnly.trans .quiet (ws_boundWsLoop _ _)

theorem WsMove.wsOnly (h : WsMove host s t) : WsOnly s t := by
  cases h with
  | finish i code => exact ws_finish s i code
  | run found gating => exact ws_runWs s _ _
  | turnAway => exact .quiet
  | consume h => exact ws_wsConsume h
  | send i payload binary => exact ws_wsSend s i payload binary

theorem moves_ws (h : WsMove host s t) : Moves host s t := (Move.ws h).one

theorem moves_gateVerdict (s : Machine U) {i : Nat} {session : Session}
    (found : s.sessionAt i .gating = some session) (status : Option Int) :
    Moves host s (s.gateVerdict host session.id i status) := by
  obtain ⟨here, gating⟩ := Option.filter_eq_some_iff.mp found
  have gating : session.phase = .gating := of_decide_eq_true gating
  have away : Moves host s _ := moves_ws (.turnAway s here gating)
  rw [gateVerdict]
  split
  · exact moves_ws (.run s here gating)
  · dsimp only
    split
    · exact away.trans (moves_ws (.finish _ i _))
    · exact away.trans (moves_ws (.finish _ i 1011))

theorem moves_put {p : Pending} (found : s.pending.find id = some p) (p' : Pending)
    (same : p'.dispatched = p.dispatched) : Moves host s (s.putPending id p') :=
  (Move.put s p' found same).one

theorem moves_closeUpload (s : Machine U) (id : Int64) : Moves host s (s.closeUpload id) := by
  rw [closeUpload_eq]
  exact (Move.upload s _).one

theorem openWs_session (s : Machine U) (id : Int64) (context : Context) :
    (s.openWs host id context).sessions[s.sessions.length]? =
      some { id := id, compressed := host.compressed context } := by
  rw [openWs]
  exact List.getElem?_concat_length

/-- The handler of a new session is started when there is no gate. -/
theorem moves_started (s : Machine U) (id : Int64) (context : Context) :
    Moves host (s.openWs host id context)
      ((s.openWs host id context).runWs host id s.sessions.length) :=
  moves_ws (.run _ (openWs_session s id context) rfl)

theorem moves_dispatch (s : Machine U) (id : Int64) : Moves host s (s.dispatch host id) := by
  rw [dispatch]
  split
  · exact .refl
  · rename_i p found
    split
    · exact .refl
    · rename_i waits
      have new : p.dispatched = false := by simpa using waits
      dsimp only
      split
      · exact (Move.drop s _ found).one
      · split
        · exact (Move.run s _ _ found new).one
        · split
          · rw [dispatchWs]
            have opened : Moves host s _ := (Move.upgrade s (contextOf p) found new).one
            split
            · exact opened.trans (moves_started _ id (contextOf p))
            · exact opened
          · exact (Move.run s _ _ found new).one

theorem moves_onHead (s : Machine U) (head : Head) : Moves host s (s.onHead host head) := by
  rw [onHead]
  dsimp only
  split
  · exact .refl
  · rename_i live
    simp only [Bool.or_eq_true, Recent.contains_eq_true, not_or, Bool.not_eq_true,
      Option.isSome_eq_false_iff, Option.isNone_iff_eq_none] at live
    have taken : Moves host s (s.takeIn head) := (Move.take s head live.1.2 live.2).one
    have found : (s.takeIn head).pending.find head.requestId = some (s.taken head) :=
      Table.find_set.trans (if_pos rfl)
    refine taken.trans ?_
    split
    · exact (moves_put found { s.taken head with complete := true } rfl).trans (moves_dispatch _ _)
    · split
      · have put : Move host { s.takeIn head with
            earlyComplete := (s.takeIn head).earlyComplete.erase head.requestId } _ :=
          .put _ { s.taken head with complete := true } found rfl
        exact ((Move.takeEnd _ _).one.tail put).trans (moves_dispatch _ _)
      · split
        · have put (uploads : Table Int64 Upload) :
              Move host { s.takeIn head with uploads := uploads } _ :=
            .put _ { s.taken head with body := [], streaming := true } found rfl
          exact (((Move.upload _ _).one.tail (put _)).tail
            (.acknowledge _ head.requestId)).trans (moves_dispatch _ _)
        · exact .refl

theorem moves_onData (s : Machine U) (id : Int64) (bytes : Bytes) :
    ∃ u, Take host id none s u ∧ Moves host u (s.onData id bytes) := by
  rw [onData]
  split
  · rename_i done
    exact ⟨_, .stale s (by simpa using done), .refl⟩
  · refine ⟨_, .receive s, ?_⟩
    dsimp only
    split
    · rename_i absent
      exact (Move.parkData _ bytes absent).one
    · rename_i p found
      split
      · split
        · split
          · exact .refl
          · exact (Move.upload _ _).one.tail (.acknowledge _ id)
        · exact .refl
      · split
        · exact moves_put found _ rfl
        · exact .refl

theorem moves_onError (s : Machine U) (id : Int64) (message : Bytes) :
    ∃ u, Take host id none s u ∧ Moves host u (s.onError id message) := by
  rw [onError]
  refine ⟨_, .receive s, ?_⟩
  split
  · rename_i absent
    exact (Move.parkError _ message absent).one
  · rename_i p found
    split
    · split
      · split
        · exact .refl
        · exact (Move.upload _ _).one.tail (.acknowledge _ id)
      · exact .refl
    · split
      · exact moves_put found _ rfl
      · exact .refl

theorem moves_onEnd (s : Machine U) (id : Int64) : Moves host s (s.onEnd host id) := by
  rw [onEnd]
  split
  · rename_i absent
    exact (Move.parkEnd _ absent).one
  · rename_i p found
    split
    · exact (moves_put found { p with complete := true } rfl).trans (moves_closeUpload _ id)
    · split
      · exact (moves_put found { p with complete := true } rfl).trans (moves_dispatch _ id)
      · exact .refl

/-- A step takes at most the payload that it is about, then moves. -/
def TakesThenMoves (host : Host U) (a : Act U) (s t : Machine U) : Prop :=
  ∃ u, (u = s ∨ ∃ id payload, a.hands = some (id, payload) ∧ Take host id payload s u) ∧
    Moves host u t

theorem moves_only {a : Act U} (moves : Moves host s t) : TakesThenMoves host a s t :=
  ⟨s, .inl rfl, moves⟩

theorem moves_onChunk (s : Machine U) (id : Int64) (chunk : Chunk) :
    TakesThenMoves host (.chunk id chunk) s (s.onChunk host id chunk) := by
  unfold onChunk
  split
  · exact moves_only .refl
  · cases chunk with
    | data bytes =>
        obtain ⟨u, takes, moves⟩ := moves_onData s id bytes
        exact ⟨u, .inr ⟨id, none, rfl, takes⟩, moves⟩
    | error message =>
        obtain ⟨u, takes, moves⟩ := moves_onError s id message
        exact ⟨u, .inr ⟨id, none, rfl, takes⟩, moves⟩
    | end_ => exact moves_only (moves_onEnd s id)

theorem moves_onEvent (s : Machine U) (id : Int64) (retires : Bool) :
    Moves host s (s.onEvent id retires) := by
  rw [onEvent]
  split
  · exact .refl
  · split
    · exact (Move.dropStream s id).one.tail (.complete _ id)
    · exact .refl

theorem moves_events (id : Int64) (messages : List DartString) (s : Machine U) :
    Moves host s (messages.foldl (fun s message => s.emit (.event id message)) s) := by
  induction messages generalizing s with
  | nil => exact .refl
  | cons message messages ih => exact (Move.note s id message).one.trans (ih _)

/-- The events of a refused answer change nothing but the output. -/
theorem events_eq (id : Int64) (messages : List DartString) (s : Machine U) :
    messages.foldl (fun s message => s.emit (.event id message)) s =
      { s with out := s.out ++ messages.map (Output.event id) } := by
  induction messages generalizing s with
  | nil => simp
  | cons message messages ih =>
      rw [List.foldl_cons, ih]
      simp [emit]

theorem moves_finishStream (s : Machine U) (id : Int64) : Moves host s (s.finishStream id) := by
  rw [finishStream]
  refine (Move.dropStream s id).one.trans (Relation.ReflTransGen.tail ?_ (.complete _ id))
  split
  · exact .refl
  · exact (Move.lastChunk _ id).one

theorem moves_answerStream (s : Machine U) (response : Response) (opened : Bool)
    (waits : id ∈ s.waiting) (open_ : id ∈ s.completed.keys → (s.pending.find id).isSome = true) :
    Moves host s
      ({ s with waiting := s.waiting.erase id }.answerStream id response opened) := by
  rw [answerStream]
  split
  · exact (Move.late s waits).one
  · split
    · exact (Move.openStream s id).one.tail (.answer _ response waits open_)
    · exact (Move.late s waits).one.tail (.complete _ id)

theorem moves_answerNow (s : Machine U) (response : Response)
    (waits : id ∈ s.waiting) (open_ : id ∈ s.completed.keys → (s.pending.find id).isSome = true) :
    Moves host s
      (({ s with waiting := s.waiting.erase id }.answerNow id response).complete id) := by
  rw [answerNow]
  split
  · exact (Move.late s waits).one.tail (.complete _ id)
  · exact (Move.answer s response waits open_).one.tail (.complete _ id)

/-- The answer of a handler that has returned. -/
theorem moves_deliver (s : Machine U) (response : Response) (opened : Bool)
    (waits : id ∈ s.waiting) :
    Moves host s ({ s with waiting := s.waiting.erase id }.deliver host id response opened) := by
  rw [deliver]
  split
  · exact (Move.late s waits).one
  · rename_i live
    have open_ : id ∈ s.completed.keys → (s.pending.find id).isSome = true := by
      intro done
      exact Option.isSome_iff_ne_none.mpr (by simpa [done] using live)
    have noted : Moves host s _ :=
      moves_events id (gate host.lib host.serverHeader response).2 s
    generalize gate host.lib host.serverHeader response = sent at noted ⊢
    obtain ⟨response, events⟩ := sent
    dsimp only at noted ⊢
    rw [events_eq] at noted ⊢
    split
    · exact noted.trans (moves_answerStream _ response opened waits open_)
    · exact noted.trans (moves_answerNow _ response waits open_)

theorem moves_onWsMessage (s : Machine U) (id : Int64) (frame : Frame) :
    TakesThenMoves host (.wsMessage id frame) s (s.onWsMessage host id frame) := by
  rw [onWsMessage]
  split
  · exact moves_only .refl
  · have heard {t : Machine U} (h : Heard host id frame (s.ackFrame id frame) t) :
        TakesThenMoves host (.wsMessage id frame) s t :=
      ⟨t, .inr ⟨id, some frame, rfl, .frame frame h⟩, .refl⟩
    dsimp only
    split
    · rename_i i found
      exact heard (.live _ found)
    · rename_i none_
      split
      · rename_i opened
        exact heard (.late _ none_ (by simpa using opened))
      · rename_i fresh
        exact heard (.parked _ none_ (by simpa using fresh))

/-- A step takes at most one payload, then moves. -/
theorem step_moves {a : Act U} (h : step host s a = some t) : TakesThenMoves host a s t := by
  cases a with
  | head head =>
      cases h
      exact moves_only (moves_onHead s head)
  | chunk id chunk =>
      cases h
      exact moves_onChunk s id chunk
  | event id retires =>
      cases h
      exact moves_only (moves_onEvent s id retires)
  | answer id response opened =>
      rw [step] at h
      split at h
      · rename_i waits
        cases h
        exact moves_only (moves_deliver s response opened waits)
      · cases h
  | streamEnded id =>
      obtain ⟨_, _, rfl⟩ := Option.map_eq_some_iff.mp h
      exact moves_only (moves_finishStream s id)
  | wsMessage id frame =>
      cases h
      exact moves_onWsMessage s id frame
  | gateVerdict i status =>
      obtain ⟨session, found, rfl⟩ := Option.map_eq_some_iff.mp h
      exact moves_only (moves_gateVerdict s found status)
  | wsReturned i threw =>
      obtain ⟨_, _, rfl⟩ := Option.map_eq_some_iff.mp h
      exact moves_only (moves_ws (.finish s i _))
  | wsConsume i => exact moves_only (moves_ws (.consume h))
  | wsClose i code =>
      cases h
      exact moves_only (moves_ws (.finish s i code))
  | wsSend i payload binary =>
      cases h
      exact moves_only (moves_ws (.send s i payload binary))
  | call call =>
      cases h
      exact moves_only (Move.call s _).one
  | close =>
      cases h
      exact moves_only (Move.close s).one

/-- What a step keeps that every take and every move keeps. -/
theorem step_keeps {I : Machine U → Prop} {a : Act U}
    (takes : ∀ id payload s t, I s → Take host id payload s t → I t)
    (moves : ∀ s t, I s → Move host s t → I t) (h : step host s a = some t) (holds : I s) :
    I t := by
  obtain ⟨u, first, rest⟩ := step_moves h
  have taken : I u := by
    rcases first with rfl | ⟨id, payload, -, take⟩
    · exact holds
    · exact takes id payload s u holds take
  clear first h
  induction rest with
  | refl => exact taken
  | tail _ move ih => exact moves _ _ ih move

/-- What every take and every move keeps holds in every state of every run. -/
theorem reaches_moves {I : Machine U → Prop} (init : I {})
    (takes : ∀ id payload s t, I s → Take host id payload s t → I t)
    (moves : ∀ s t, I s → Move host s t → I t)
    {ok : Machine U → Act U → Prop} (run : Reaches (stepOf (step host)) ok {} s) : I s :=
  run.invariant init fun _ _ _ holds _ stepped =>
    step_keeps takes moves stepped holds

/-! ### What moves leave alone -/

/-- Only what is parked differs. -/
theorem boundLoop_eq (turns : Nat) (s : Machine U) : ∃ early earlyErrors earlyComplete,
    boundLoop turns s = { s with
      early := early, earlyErrors := earlyErrors, earlyComplete := earlyComplete } := by
  induction turns generalizing s with
  | zero => exact ⟨_, _, _, rfl⟩
  | succ turns ih =>
      rw [boundLoop]
      split
      · have evicted : ∃ early earlyErrors earlyComplete, s.evictEarly = { s with
            early := early, earlyErrors := earlyErrors, earlyComplete := earlyComplete } := by
          rw [evictEarly]
          repeat' split
          all_goals exact ⟨_, _, _, rfl⟩
        obtain ⟨_, _, _, first⟩ := evicted
        obtain ⟨early, errors, ends, rest⟩ := ih s.evictEarly
        exact ⟨early, errors, ends, by rw [rest, first]⟩
      · exact ⟨_, _, _, rfl⟩

theorem boundEarly_eq (s : Machine U) : ∃ early earlyErrors earlyComplete,
    s.boundEarly = { s with
      early := early, earlyErrors := earlyErrors, earlyComplete := earlyComplete } :=
  boundLoop_eq s.parked s

theorem out_boundEarly (s : Machine U) : s.boundEarly.out = s.out := by
  obtain ⟨_, _, _, eq⟩ := s.boundEarly_eq
  rw [eq]

theorem close_keeps (s : Machine U) : s.close.pending = s.pending ∧ s.close.waiting = s.waiting ∧
    s.close.completed = s.completed ∧ s.close.out = s.out := by
  have shut (es : List (Int64 × Nat)) : ∀ s : Machine U,
      let t := es.foldl (fun s e => s.shutdown e.2) s
      t.pending = s.pending ∧ t.waiting = s.waiting ∧ t.completed = s.completed ∧
        t.out = s.out := by
    induction es with
    | nil => exact fun s => ⟨rfl, rfl, rfl, rfl⟩
    | cons e es ih => exact fun s => ih (s.shutdown e.2)
  rw [close]
  split
  · exact ⟨rfl, rfl, rfl, rfl⟩
  · exact shut s.wsSessions.entries { s with closed := true }

theorem quiet_ackOut (id : Int64) (acked : Option Nat) :
    ∀ o ∈ ackOut (U := U) id acked, o.takes = false := by
  intro o mem
  cases acked with
  | none => cases mem
  | some n =>
      rw [ackOut] at mem
      split at mem
      · rw [List.mem_singleton.mp mem]
        rfl
      · cases mem

theorem countP_silent {p : Output U → Bool} {out os : List (Output U)}
    (silent : ∀ o ∈ os, p o = false) : (out ++ os).countP p = out.countP p := by
  have none_ : os.countP p = 0 := List.countP_eq_zero.mpr fun o mem => by simp [silent o mem]
  rw [List.countP_append, none_, Nat.add_zero]

/-- A session takes no payload. -/
theorem takes_ws {o : Output U} (ws : o.isWs = true) : o.takes = false := by
  cases o with
  | received => cases ws
  | receivedFrame => cases ws
  | _ => rfl

/-- What has gone out stays; a payload that is taken is one output more. -/
theorem take_out {id : Int64} {payload : Option Frame} (take : Take host id payload s t) :
    ∃ os, t.out = s.out ++ .taking id payload :: os ∧ ∀ o ∈ os, o.takes = false := by
  cases take with
  | receive => exact ⟨[], rfl, by simp⟩
  | stale _ => exact ⟨[_], List.append_assoc .., by simp [Output.takes]⟩
  | frame frame heard =>
      obtain ⟨os, outs, ws⟩ := heard.wsOnly.out
      refine ⟨.ack id ((s.wsAcked.find id).getD 0 + 1) :: os, ?_,
        List.forall_mem_cons.mpr ⟨rfl, ?_⟩⟩
      · rw [outs, ackFrame, emit, emit, List.append_assoc, List.append_assoc]
        rfl
      · exact fun o mem => takes_ws (ws o mem)

/-- A move takes no payload. -/
theorem move_out (move : Move host s t) :
    ∃ os, t.out = s.out ++ os ∧ ∀ o ∈ os, o.takes = false := by
  have nil_ : s.out = s.out ++ [] := (List.append_nil _).symm
  have none_ : ∀ o ∈ ([] : List (Output U)), o.takes = false := by simp
  have one {o : Output U} (quiet : o.takes = false) : ∀ o' ∈ [o], o'.takes = false :=
    List.forall_mem_singleton.mpr quiet
  have completes (id : Int64) (acked : Option Nat) :
      ∀ o ∈ .completed id :: ackOut (U := U) id acked, o.takes = false :=
    List.forall_mem_cons.mpr ⟨rfl, quiet_ackOut id acked⟩
  cases move with
  | acknowledge id =>
      rw [ackNow, ackCount_eq]
      exact ⟨_, rfl, quiet_ackOut id _⟩
  | parkData bytes _ => exact ⟨[], (out_boundEarly _).trans nil_, none_⟩
  | parkError message _ => exact ⟨[], (out_boundEarly _).trans nil_, none_⟩
  | parkEnd _ => exact ⟨[], (out_boundEarly _).trans nil_, none_⟩
  | drop p' _ =>
      rw [complete_eq]
      exact ⟨_, rfl, completes _ _⟩
  | complete id =>
      rw [complete_eq]
      exact ⟨_, rfl, completes _ _⟩
  | ws ws =>
      obtain ⟨os, outs, ws⟩ := ws.wsOnly.out
      exact ⟨os, outs, fun o mem => takes_ws (ws o mem)⟩
  | close => exact ⟨[], (close_keeps s).2.2.2.trans nil_, none_⟩
  | run answerer context _ _ => exact ⟨_, rfl, one rfl⟩
  | upgrade context _ _ => exact ⟨_, rfl, one rfl⟩
  | note id message => exact ⟨_, rfl, one rfl⟩
  | answer response _ _ => exact ⟨_, rfl, one rfl⟩
  | lastChunk id => exact ⟨_, rfl, one rfl⟩
  | _ => exact ⟨[], nil_, none_⟩

/-- A closed runner stays closed. -/
theorem take_closed {id : Int64} {payload : Option Frame} (take : Take host id payload s t) :
    t.closed = s.closed := by
  cases take with
  | receive => rfl
  | stale _ => rfl
  | frame frame heard => exact heard.wsOnly.closed

theorem move_closed (move : Move host s t) (closed : s.closed = true) : t.closed = true := by
  have parked (t : Machine U) (same : t.closed = true) : t.boundEarly.closed = true := by
    obtain ⟨_, _, _, eq⟩ := t.boundEarly_eq
    rw [eq]
    exact same
  cases move with
  | acknowledge id =>
      rw [ackNow, ackCount_eq]
      exact closed
  | parkData bytes _ => exact parked _ closed
  | parkError message _ => exact parked _ closed
  | parkEnd _ => exact parked _ closed
  | drop p' _ =>
      rw [complete_eq]
      exact closed
  | complete id =>
      rw [complete_eq]
      exact closed
  | ws ws => exact ws.wsOnly.closed.trans closed
  | close =>
      rw [close, if_pos closed]
      exact closed
  | _ => exact closed

end Machine

end NitroServer.Runner
