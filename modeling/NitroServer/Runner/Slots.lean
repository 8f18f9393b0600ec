/-
What the runner's callbacks do to one id (`Runner.Machine`): each of them changes the entries of
its own id only, as long as the parked entries of others are not evicted.

* `WsOnly` — what the WebSocket callbacks may change; no table of the requests is among it.
* `SameSlot` — two states agree on an id: on its entries in the request tables and on what has
  been started for it.
* `complete_eq`, `dispatch_cases` — the two functions that every path ends in, as updates.
* `step_other` — a step that is about another id keeps the slot.
-/

import NitroServer.Runner.Machine

namespace NitroServer.Runner

open Engine (Bytes)
open Lib

/-! ### What outputs and actions are about -/

section About

variable {U : UserCode}

/-- The request an output starts, if it is one of `j`. -/
def Output.startOf (j : Int64) : Output U → Option Context
  | .run id _ context => if id = j then some context else none
  | .upgrade id context => if id = j then some context else none
  | _ => none

/-- An output of a WebSocket session. -/
def Output.isWs : Output U → Bool
  | .wsRun _ | .wsSend .. | .wsClose .. | .evicted _ => true
  | _ => false

theorem Output.startOf_ws {o : Output U} (ws : o.isWs = true) (j : Int64) :
    o.startOf j = none := by
  cases o with
  | run => cases ws
  | upgrade => cases ws
  | _ => rfl

/-- The action is about the request `j`. -/
def Act.isAbout (j : Int64) : Act U → Bool
  | .head h => h.requestId == j
  | .chunk id _ | .event id _ | .answer id _ _ | .streamEnded id => id == j
  | _ => false

end About

namespace Machine

variable {U : UserCode} {host : Host U} {s t u : Machine U} {id j : Int64}

/-! ### What has been started -/

/-- What handlers and sessions have been started with for `j`, in order. -/
def starts (s : Machine U) (j : Int64) : List Context := s.out.filterMap (Output.startOf j)

theorem starts_emit (o : Output U) (j : Int64) :
    (s.emit o).starts j = s.starts j ++ (Output.startOf j o).toList := by
  rw [starts, emit, List.filterMap_append]
  cases found : Output.startOf j o with
  | none => rw [List.filterMap_cons_none found]; rfl
  | some context => rw [List.filterMap_cons_some found]; rfl

/-! ### Acknowledging -/

/-- What `ackCount` sends. -/
def ackOut (id : Int64) : Option Nat → List (Output U)
  | some n => if 0 < n then [.ack id n] else []
  | none => []

theorem ackCount_eq (s : Machine U) (id : Int64) (acked : Option Nat) :
    s.ackCount id acked = { s with out := s.out ++ ackOut id acked } := by
  cases acked with
  | none => simp [ackCount, ackOut]
  | some n =>
      rw [ackCount, ackOut]
      split
      · rfl
      · rw [List.append_nil]

theorem ackOut_start (id j : Int64) (acked : Option Nat) :
    (ackOut (U := U) id acked).filterMap (Output.startOf j) = [] := by
  cases acked with
  | none => rfl
  | some n =>
      rw [ackOut]
      split <;> rfl

/-! ### Completing -/

theorem closeUpload_eq (s : Machine U) (id : Int64) :
    s.closeUpload id = { s with uploads := (s.closeUpload id).uploads } := by
  rw [closeUpload]
  split <;> rfl

theorem endStream_eq (s : Machine U) (id : Int64) :
    s.endStream id = { s with uploads := (s.endStream id).uploads } := by
  rw [endStream]
  split
  · split
    · exact closeUpload_eq s id
    · rfl
  · rfl

/-- `_complete` as one update. -/
theorem complete_eq (s : Machine U) (id : Int64) :
    s.complete id = { s with
      pending := s.pending.erase id
      completed := s.completed.add id
      acked := s.acked.erase id
      uploads := (s.endStream id).uploads
      out := s.out ++ .completed id :: ackOut id (s.acked.find id) } := by
  rw [complete, endStream_eq, ackCount_eq]
  simp only [emit, List.append_assoc, List.singleton_append]

theorem starts_complete (s : Machine U) (id j : Int64) : (s.complete id).starts j = s.starts j := by
  rw [complete_eq, starts, List.filterMap_append, List.filterMap_cons, ackOut_start]
  exact List.append_nil _

theorem find_closeUpload (s : Machine U) (id j : Int64) :
    (s.closeUpload id).uploads.find j =
      if j = id then (s.uploads.find id).map fun u => { u with closed := true }
      else s.uploads.find j := by
  rw [closeUpload]
  split
  · rename_i u found
    simp only [Table.find_set, found, Option.map_some]
  · rename_i none_
    by_cases same : j = id
    · rw [if_pos same, same, none_, Option.map_none]
    · rw [if_neg same]

theorem find_endStream (s : Machine U) (other : j ≠ id) :
    (s.endStream id).uploads.find j = s.uploads.find j := by
  rw [endStream]
  split
  · split
    · rw [find_closeUpload, if_neg other]
    · rfl
  · rfl

/-! ### Parking -/

theorem boundLoop_room {turns : Nat} (room : s.parked ≤ parkedLimit) : boundLoop turns s = s := by
  cases turns with
  | zero => rfl
  | succ turns => rw [boundLoop, if_neg (by omega)]

/-- With room for what is parked, `_boundEarly` evicts nothing. -/
theorem boundEarly_room (room : s.parked ≤ parkedLimit) : s.boundEarly = s := boundLoop_room room

/-! ### The WebSocket callbacks -/

/-- Only sessions and their tables differ, and what sessions have sent. -/
structure WsOnly (s t : Machine U) : Prop where
  tables : t.tables = s.tables
  pending : t.pending = s.pending
  completed : t.completed = s.completed
  early : t.early = s.early
  earlyErrors : t.earlyErrors = s.earlyErrors
  earlyComplete : t.earlyComplete = s.earlyComplete
  acked : t.acked = s.acked
  uploads : t.uploads = s.uploads
  outbound : t.outbound = s.outbound
  waiting : t.waiting = s.waiting
  closed : t.closed = s.closed
  wsAcked : ∀ j n, t.wsAcked.find j = some n → s.wsAcked.find j = some n
  out : ∃ os, t.out = s.out ++ os ∧ ∀ o ∈ os, o.isWs = true

namespace WsOnly

theorem of_out (os : List (Output U)) (ws : ∀ o ∈ os, o.isWs = true) {sessions wsSessions wsOpened
    wsEarly} {wsAcked : Table Int64 Nat}
    (fewer : ∀ j n, wsAcked.find j = some n → s.wsAcked.find j = some n) :
    WsOnly s { s with
      sessions := sessions, wsSessions := wsSessions, wsOpened := wsOpened, wsAcked := wsAcked
      wsEarly := wsEarly, out := s.out ++ os } :=
  ⟨rfl, rfl, rfl, rfl, rfl, rfl, rfl, rfl, rfl, rfl, rfl, fewer, os, rfl, ws⟩

theorem quiet {sessions wsSessions wsOpened wsEarly} :
    WsOnly s { s with
      sessions := sessions, wsSessions := wsSessions, wsOpened := wsOpened, wsEarly := wsEarly } :=
  ⟨rfl, rfl, rfl, rfl, rfl, rfl, rfl, rfl, rfl, rfl, rfl, fun _ _ found => found, [],
    (List.append_nil _).symm, by simp⟩

theorem refl (s : Machine U) : WsOnly s s := quiet

theorem trans (first : WsOnly s t) (second : WsOnly t u) : WsOnly s u := by
  obtain ⟨os, outs, ws⟩ := first.out
  obtain ⟨os', outs', ws'⟩ := second.out
  refine ⟨second.tables.trans first.tables, second.pending.trans first.pending,
    second.completed.trans first.completed, second.early.trans first.early,
    second.earlyErrors.trans first.earlyErrors, second.earlyComplete.trans first.earlyComplete,
    second.acked.trans first.acked, second.uploads.trans first.uploads,
    second.outbound.trans first.outbound, second.waiting.trans first.waiting,
    second.closed.trans first.closed, fun j n found => first.wsAcked j n (second.wsAcked j n found),
    os ++ os', ?_, ?_⟩
  · rw [outs', outs, List.append_assoc]
  · intro o mem
    rcases List.mem_append.mp mem with old | new
    · exact ws o old
    · exact ws' o new

end WsOnly

theorem ws_finish (s : Machine U) (i : Nat) (code : Int) : WsOnly s (s.finish i code) := by
  rw [finish]
  split
  · exact .refl s
  · split
    · exact .refl s
    · rename_i session _ _
      refine .of_out [.wsClose i session.id code] (by simp [Output.isWs]) fun j n found => ?_
      rw [Table.find_erase] at found
      split at found
      · cases found
      · exact found

theorem ws_addMessage (s : Machine U) (i : Nat) (message : WsMessage) :
    WsOnly s (s.addMessage host i message) := by
  rw [addMessage]
  split
  · exact .refl s
  · split
    · exact .refl s
    · split
      · exact ws_finish s i 1009
      · exact .quiet

theorem ws_deliverPayload (s : Machine U) (i kind : Nat) (bytes : Bytes) :
    WsOnly s (s.deliverPayload host i kind bytes) := by
  rw [deliverPayload]
  split
  · split
    · exact ws_addMessage s i _
    · exact ws_finish s i 1007
  · exact ws_addMessage s i _

theorem ws_deliverWs (s : Machine U) (i : Nat) (frame : Frame) :
    WsOnly s (s.deliverWs host i frame) := by
  have noted : WsOnly s (s.noteOffered i frame) := .quiet
  refine noted.trans ?_
  rw [deliverWs]
  split
  · exact ws_finish _ i frame.aux
  · split
    · split
      · exact ws_deliverPayload _ i frame.kind _
      · exact ws_finish _ i 1009
      · exact ws_finish _ i 1007
    · exact ws_deliverPayload _ i frame.kind frame.bytes

theorem ws_replay (i : Nat) (frames : List Frame) (s : Machine U) :
    WsOnly s (replay host i frames s) := by
  induction frames generalizing s with
  | nil => exact .refl s
  | cons frame frames ih =>
      rw [replay]
      split
      · exact .refl s
      · exact (ws_deliverWs s i frame).trans (ih _)

theorem ws_setPhase (s : Machine U) (i : Nat) (phase : Phase) : WsOnly s (s.setPhase i phase) :=
  .quiet

theorem ws_runWs (s : Machine U) (id : Int64) (i : Nat) : WsOnly s (s.runWs host id i) := by
  have cleared : WsOnly s { s with wsEarly := s.wsEarly.erase id } := .quiet
  have replayed : WsOnly _ (replay host i _ _) :=
    ws_replay i ((s.wsEarly.find id).getD []) { s with wsEarly := s.wsEarly.erase id }
  rw [runWs]
  exact cleared.trans (replayed.trans
    ((ws_setPhase _ i .running).trans
      (.of_out [.wsRun i] (by simp [Output.isWs]) fun _ _ found => found)))

theorem ws_gateVerdict (s : Machine U) (id : Int64) (i : Nat) (status : Option Int) :
    WsOnly s (s.gateVerdict host id i status) := by
  have away : WsOnly s ({ s with wsEarly := s.wsEarly.erase id }.setPhase i .turnedAway) := .quiet
  rw [gateVerdict]
  split
  · exact ws_runWs s id i
  · dsimp only
    split
    · exact away.trans (ws_finish _ i _)
    · exact away.trans (ws_finish _ i 1011)

theorem ws_wsSend (s : Machine U) (i : Nat) (payload : Bytes) (binary : Bool) :
    WsOnly s (s.wsSend host i payload binary) := by
  rw [wsSend]
  split
  · exact .refl s
  · split
    · exact .refl s
    · exact .of_out [_] (by simp [Output.isWs]) fun _ _ found => found

theorem ws_wsConsume {i : Nat} (h : s.wsConsume i = some t) : WsOnly s t := by
  rw [wsConsume] at h
  split at h
  · cases h
  · obtain ⟨message, _, rfl⟩ := Option.map_eq_some_iff.mp h
    exact .quiet

theorem ws_boundWsLoop (turns : Nat) (s : Machine U) : WsOnly s (boundWsLoop turns s) := by
  induction turns generalizing s with
  | zero => exact .refl s
  | succ turns ih =>
      rw [boundWsLoop]
      split
      · split
        · exact WsOnly.trans
            (.of_out [.evicted _] (by simp [Output.isWs]) fun _ _ found => found) (ih _)
        · exact .refl s
      · exact .refl s

/-! ### The chunk callback of an open runner -/

theorem onChunk_data (open_ : s.closed = false) (bytes : Bytes) :
    s.onChunk host id (.data bytes) = s.onData id bytes := by
  unfold onChunk
  rw [if_neg (by simp [open_])]

theorem onChunk_error (open_ : s.closed = false) (message : Bytes) :
    s.onChunk host id (.error message) = s.onError id message := by
  unfold onChunk
  rw [if_neg (by simp [open_])]

theorem onChunk_end (open_ : s.closed = false) : s.onChunk host id .end_ = s.onEnd host id := by
  unfold onChunk
  rw [if_neg (by simp [open_])]

/-! ### One id -/

/-- The two states agree on `j`. -/
structure SameSlot (j : Int64) (s t : Machine U) : Prop where
  pending : t.pending.find j = s.pending.find j
  completed : j ∈ t.completed.keys → j ∈ s.completed.keys
  early : t.early.find j = s.early.find j
  earlyErrors : t.earlyErrors.find j = s.earlyErrors.find j
  earlyComplete : t.earlyComplete.find j = s.earlyComplete.find j
  uploads : t.uploads.find j = s.uploads.find j
  outbound : t.outbound.find j = s.outbound.find j
  waiting : j ∈ t.waiting ↔ j ∈ s.waiting
  closed : t.closed = s.closed
  starts : t.starts j = s.starts j

namespace SameSlot

theorem refl (j : Int64) (s : Machine U) : SameSlot j s s :=
  ⟨rfl, fun mem => mem, rfl, rfl, rfl, rfl, rfl, Iff.rfl, rfl, rfl⟩

theorem trans (first : SameSlot j s t) (second : SameSlot j t u) : SameSlot j s u :=
  ⟨second.pending.trans first.pending, fun mem => first.completed (second.completed mem),
    second.early.trans first.early, second.earlyErrors.trans first.earlyErrors,
    second.earlyComplete.trans first.earlyComplete, second.uploads.trans first.uploads,
    second.outbound.trans first.outbound, second.waiting.trans first.waiting,
    second.closed.trans first.closed, second.starts.trans first.starts⟩

end SameSlot

theorem starts_of_quiet (os : List (Output U)) (outs : t.out = s.out ++ os)
    (none_ : ∀ o ∈ os, Output.startOf j o = none) : t.starts j = s.starts j := by
  rw [starts, outs, List.filterMap_append, List.filterMap_eq_nil_iff.mpr none_]
  exact List.append_nil _

theorem WsOnly.sameSlot (h : WsOnly s t) (j : Int64) : SameSlot j s t := by
  obtain ⟨os, outs, ws⟩ := h.out
  have started : t.starts j = s.starts j := by
    exact starts_of_quiet os outs fun o mem => Output.startOf_ws (ws o mem) j
  exact ⟨by rw [h.pending], by rw [h.completed]; exact id, by rw [h.early],
    by rw [h.earlyErrors], by rw [h.earlyComplete], by rw [h.uploads], by rw [h.outbound],
    by rw [h.waiting], h.closed, started⟩

/-- An output that starts nothing. -/
theorem same_emit (s : Machine U) {o : Output U} (none_ : Output.startOf j o = none) :
    SameSlot j s (s.emit o) :=
  ⟨rfl, fun mem => mem, rfl, rfl, rfl, rfl, rfl, Iff.rfl, rfl,
    starts_of_quiet [o] rfl (List.forall_mem_singleton.mpr none_)⟩

theorem same_complete (other : j ≠ id) (s : Machine U) : SameSlot j s (s.complete id) := by
  have started := starts_complete s id j
  rw [complete_eq] at started ⊢
  refine ⟨?_, ?_, rfl, rfl, rfl, find_endStream s other, rfl, Iff.rfl, rfl, started⟩
  · rw [Table.find_erase, if_neg other]
  · intro mem
    exact (Recent.mem_add mem).resolve_left other

theorem same_ackNow (s : Machine U) : SameSlot j s (s.ackNow id) := by
  rw [ackNow, ackCount_eq]
  exact ⟨rfl, fun mem => mem, rfl, rfl, rfl, rfl, rfl, Iff.rfl, rfl,
    by rw [starts, List.filterMap_append, ackOut_start]; exact List.append_nil _⟩

theorem same_copyChunk (s : Machine U) (id : Int64) : SameSlot j s (s.copyChunk id) :=
  ⟨rfl, fun mem => mem, rfl, rfl, rfl, rfl, rfl, Iff.rfl, rfl,
    starts_of_quiet [.received id] rfl (by simp [Output.startOf])⟩

theorem same_putPending (other : j ≠ id) (s : Machine U) (p : Pending) :
    SameSlot j s (s.putPending id p) :=
  ⟨by rw [putPending, Table.find_set, if_neg other], fun mem => mem, rfl, rfl, rfl, rfl, rfl,
    Iff.rfl, rfl, rfl⟩

theorem same_closeUpload (other : j ≠ id) (s : Machine U) : SameSlot j s (s.closeUpload id) := by
  have found := find_closeUpload s id j
  rw [closeUpload_eq]
  exact ⟨rfl, fun mem => mem, rfl, rfl, rfl, by rw [found, if_neg other], rfl, Iff.rfl, rfl, rfl⟩

/-! ### The callbacks, seen from another id -/

theorem same_openWs (other : j ≠ id) (s : Machine U) (context : Context) :
    SameSlot j s (s.openWs host id context) :=
  ⟨by rw [openWs, emit, Table.find_erase, if_neg other], fun mem => mem, rfl, rfl, rfl, rfl, rfl,
    Iff.rfl, rfl, starts_of_quiet [.upgrade id context] rfl
      (by simp [Output.startOf, Ne.symm other])⟩

theorem same_dispatchWs (other : j ≠ id) (s : Machine U) (context : Context) (ws : WsEntry U) :
    SameSlot j s (s.dispatchWs host id context ws) := by
  rw [dispatchWs]
  split
  · exact (same_openWs other s context).trans ((ws_runWs _ id s.sessions.length).sameSlot j)
  · exact same_openWs other s context

theorem same_runHandler (other : j ≠ id) (s : Machine U) (answerer : Answerer U)
    (context : Context) : SameSlot j s (s.runHandler id answerer context) :=
  ⟨rfl, fun mem => mem, rfl, rfl, rfl, rfl, rfl, by simp [runHandler, emit, other], rfl,
    starts_of_quiet [.run id answerer context] rfl
      (by simp [Output.startOf, Ne.symm other])⟩

theorem same_dispatch (other : j ≠ id) (s : Machine U) : SameSlot j s (s.dispatch host id) := by
  rw [dispatch]
  split
  · exact .refl j s
  · rename_i p _
    split
    · exact .refl j s
    · have marked : SameSlot j s (s.putPending id { p with dispatched := true }) :=
        same_putPending other s _
      refine marked.trans ?_
      dsimp only
      split
      · exact same_complete other _
      · split
        · exact same_runHandler other _ _ _
        · split
          · exact same_dispatchWs other _ _ _
          · exact same_runHandler other _ _ _

theorem same_takeIn {head : Head} (other : j ≠ head.requestId) (s : Machine U) :
    SameSlot j s (s.takeIn head) :=
  ⟨by rw [takeIn, Table.find_set, if_neg other], fun mem => mem,
    by rw [takeIn, Table.find_erase, if_neg other], by rw [takeIn, Table.find_erase, if_neg other],
    rfl, rfl, rfl, Iff.rfl, rfl, rfl⟩

theorem same_onHead {head : Head} (other : j ≠ head.requestId) (s : Machine U) :
    SameSlot j s (s.onHead host head) := by
  rw [onHead]
  dsimp only
  split
  · exact .refl j s
  · refine (same_takeIn other s).trans ?_
    split
    · exact (same_putPending other _ _).trans (same_dispatch other _)
    · split
      · have taken : SameSlot j (s.takeIn head) { s.takeIn head with
            earlyComplete := (s.takeIn head).earlyComplete.erase head.requestId } :=
          ⟨rfl, fun mem => mem, rfl, rfl, by rw [Table.find_erase, if_neg other], rfl, rfl,
            Iff.rfl, rfl, rfl⟩
        exact taken.trans ((same_putPending other _ _).trans (same_dispatch other _))
      · split
        · have fresh (u : Upload) : SameSlot j (s.takeIn head) { s.takeIn head with
              uploads := (s.takeIn head).uploads.set head.requestId u } :=
            ⟨rfl, fun mem => mem, rfl, rfl, rfl, by rw [Table.find_set, if_neg other], rfl,
              Iff.rfl, rfl, rfl⟩
          exact (fresh _).trans ((same_putPending other _ _).trans
            ((same_ackNow _).trans (same_dispatch other _)))
        · exact .refl j _

/-- A chunk finds room to be parked. -/
def Roomy (s : Machine U) : Act U → Prop
  | .chunk _ _ => s.parked < parkedLimit
  | _ => True

instance (s : Machine U) (a : Act U) : Decidable (Roomy s a) := by
  unfold Roomy
  split <;> infer_instance

theorem parked_early (room : s.parked < parkedLimit) (v : List Bytes) :
    { s with early := s.early.set id v }.boundEarly = { s with early := s.early.set id v } := by
  have grown := Table.length_set_le s.early id v
  apply boundEarly_room
  simp only [parked] at room ⊢
  omega

theorem parked_earlyErrors (room : s.parked < parkedLimit) (v : Bytes) :
    { s with earlyErrors := s.earlyErrors.set id v }.boundEarly =
      { s with earlyErrors := s.earlyErrors.set id v } := by
  have grown := Table.length_set_le s.earlyErrors id v
  apply boundEarly_room
  simp only [parked] at room ⊢
  omega

theorem parked_earlyComplete (room : s.parked < parkedLimit) :
    { s with earlyComplete := s.earlyComplete.set id () }.boundEarly =
      { s with earlyComplete := s.earlyComplete.set id () } := by
  have grown := Table.length_set_le s.earlyComplete id ()
  apply boundEarly_room
  simp only [parked] at room ⊢
  omega

theorem same_setUpload (other : j ≠ id) (s : Machine U) (u : Upload) :
    SameSlot j s { s with uploads := s.uploads.set id u } :=
  ⟨rfl, fun mem => mem, rfl, rfl, rfl, by rw [Table.find_set, if_neg other], rfl, Iff.rfl, rfl,
    rfl⟩

theorem same_onData (other : j ≠ id) (room : s.parked < parkedLimit) (bytes : Bytes) :
    SameSlot j s (s.onData id bytes) := by
  rw [onData]
  split
  · exact (same_emit s rfl).trans (same_emit _ rfl)
  · refine (same_copyChunk s id).trans ?_
    dsimp only
    split
    · rw [parked_early (by exact room)]
      exact ⟨rfl, fun mem => mem, by rw [Table.find_set, if_neg other], rfl, rfl, rfl, rfl,
        Iff.rfl, rfl, rfl⟩
    · split
      · split
        · split
          · exact .refl j _
          · exact (same_setUpload other _ _).trans (same_ackNow _)
        · exact .refl j _
      · split
        · exact same_putPending other _ _
        · exact .refl j _

theorem same_onError (other : j ≠ id) (room : s.parked < parkedLimit) (message : Bytes) :
    SameSlot j s (s.onError id message) := by
  rw [onError]
  refine (same_copyChunk s id).trans ?_
  split
  · rw [parked_earlyErrors (by exact room)]
    exact ⟨rfl, fun mem => mem, rfl, by rw [Table.find_set, if_neg other], rfl, rfl, rfl,
      Iff.rfl, rfl, rfl⟩
  · split
    · split
      · split
        · exact .refl j _
        · exact (same_setUpload other _ _).trans (same_ackNow _)
      · exact .refl j _
    · split
      · exact same_putPending other _ _
      · exact .refl j _

theorem same_onEnd (other : j ≠ id) (room : s.parked < parkedLimit) :
    SameSlot j s (s.onEnd host id) := by
  rw [onEnd]
  split
  · rw [parked_earlyComplete room]
    exact ⟨rfl, fun mem => mem, rfl, rfl, by rw [Table.find_set, if_neg other], rfl, rfl,
      Iff.rfl, rfl, rfl⟩
  · split
    · exact (same_putPending other _ _).trans (same_closeUpload other _)
    · split
      · exact (same_putPending other _ _).trans (same_dispatch other _)
      · exact .refl j s

theorem same_onChunk (other : j ≠ id) (room : s.parked < parkedLimit) (chunk : Chunk) :
    SameSlot j s (s.onChunk host id chunk) := by
  unfold onChunk
  split
  · exact .refl j s
  · cases chunk with
    | data bytes => exact same_onData other room bytes
    | error message => exact same_onError other room message
    | end_ => exact same_onEnd other room

theorem same_dropOutbound (other : j ≠ id) (s : Machine U) :
    SameSlot j s { s with outbound := s.outbound.erase id } :=
  ⟨rfl, fun mem => mem, rfl, rfl, rfl, rfl, by rw [Table.find_erase, if_neg other], Iff.rfl, rfl,
    rfl⟩

theorem same_onEvent (other : j ≠ id) (s : Machine U) (retires : Bool) :
    SameSlot j s (s.onEvent id retires) := by
  rw [onEvent]
  split
  · exact .refl j s
  · split
    · exact (same_dropOutbound other s).trans (same_complete other _)
    · exact .refl j s

theorem same_events (id : Int64) (messages : List Bridge.DartString) (s : Machine U) :
    SameSlot j s (messages.foldl (fun s message => s.emit (.event id message)) s) := by
  induction messages generalizing s with
  | nil => exact .refl j s
  | cons message messages ih => exact (same_emit s rfl).trans (ih _)

theorem same_deliver (other : j ≠ id) (s : Machine U) (response : Response) (opened : Bool) :
    SameSlot j s (s.deliver host id response opened) := by
  rw [deliver]
  split
  · exact .refl j s
  · refine (same_events id (gate host.lib host.serverHeader response).2 s).trans ?_
    dsimp only
    split
    · rw [answerStream]
      split
      · exact .refl j _
      · split
        · refine SameSlot.trans (t := { (_ : Machine U) with outbound := _ }) ?_ (same_emit _ rfl)
          exact ⟨rfl, fun mem => mem, rfl, rfl, rfl, rfl, by rw [Table.find_set, if_neg other],
            Iff.rfl, rfl, rfl⟩
        · exact same_complete other _
    · refine SameSlot.trans ?_ (same_complete other _)
      rw [answerNow]
      split
      · exact .refl j _
      · exact same_emit _ rfl

theorem same_finishStream (other : j ≠ id) (s : Machine U) : SameSlot j s (s.finishStream id) := by
  rw [finishStream]
  refine (same_dropOutbound other s).trans (SameSlot.trans ?_ (same_complete other _))
  split
  · exact .refl j _
  · exact same_emit _ rfl

theorem same_ackFrame (s : Machine U) (id : Int64) (frame : Frame) :
    SameSlot j s (s.ackFrame id frame) :=
  ⟨rfl, fun mem => mem, rfl, rfl, rfl, rfl, rfl, Iff.rfl, rfl,
    starts_of_quiet [.receivedFrame id frame, .ack id ((s.wsAcked.find id).getD 0 + 1)]
      (List.append_assoc ..) (by simp [Output.startOf])⟩

theorem same_onWsMessage (s : Machine U) (frame : Frame) :
    SameSlot j s (s.onWsMessage host id frame) := by
  rw [onWsMessage]
  split
  · exact .refl j s
  · refine (same_ackFrame s id frame).trans ?_
    dsimp only
    split
    · exact (ws_deliverWs _ _ frame).sameSlot j
    · split
      · exact .refl j _
      · exact (WsOnly.trans .quiet (ws_boundWsLoop _ _)).sameSlot j

/-- A step that is not about `j` leaves its slot alone. -/
theorem step_other {a : Act U} (h : step host s a = some t) (room : Roomy s a)
    (other : Act.isAbout j a = false) (open_ : a ≠ .close) : SameSlot j s t := by
  cases a with
  | head head =>
      cases h
      exact same_onHead (fun same => by simp [Act.isAbout, same] at other) s
  | chunk id chunk =>
      cases h
      exact same_onChunk (fun same => by simp [Act.isAbout, same] at other) room chunk
  | event id retires =>
      cases h
      exact same_onEvent (fun same => by simp [Act.isAbout, same] at other) s retires
  | answer id response opened =>
      have apart : j ≠ id := fun same => by simp [Act.isAbout, same] at other
      rw [step] at h
      split at h
      · cases h
        refine SameSlot.trans ?_ (same_deliver apart _ response opened)
        exact ⟨rfl, fun mem => mem, rfl, rfl, rfl, rfl, rfl, List.mem_erase_of_ne apart, rfl, rfl⟩
      · cases h
  | streamEnded id =>
      obtain ⟨_, _, rfl⟩ := Option.map_eq_some_iff.mp h
      exact same_finishStream (fun same => by simp [Act.isAbout, same] at other) s
  | wsMessage id frame =>
      cases h
      exact same_onWsMessage s frame
  | gateVerdict i status =>
      obtain ⟨session, _, rfl⟩ := Option.map_eq_some_iff.mp h
      exact (ws_gateVerdict s session.id i status).sameSlot j
  | wsReturned i threw =>
      obtain ⟨_, _, rfl⟩ := Option.map_eq_some_iff.mp h
      exact (ws_finish s i _).sameSlot j
  | wsConsume i => exact (ws_wsConsume h).sameSlot j
  | wsClose i code =>
      cases h
      exact (ws_finish s i code).sameSlot j
  | wsSend i payload binary =>
      cases h
      exact (ws_wsSend s i payload binary).sameSlot j
  | call call =>
      cases h
      exact ⟨rfl, fun mem => mem, rfl, rfl, rfl, rfl, rfl, Iff.rfl, rfl, rfl⟩
  | close => exact absurd rfl open_

end Machine

end NitroServer.Runner
