/-
A request body on its way to the handler (`_onHead`, `_onChunk` in `server_runner.dart`): the head
of a request and its chunks come on two streams, in any order of the one to the other.

* `Conversation` — the two streams of one request, interleaved with everything else.
* `Ahead`, `Gathering`, `Streaming`, `Served` — where a request stands: chunks before its head, a
  body being gathered, a handler that reads a stream, a handler that has it all.
* `body_reassembled` — however the streams are interleaved, one handler is started for the request,
  and what it reads is the whole body.
-/

import NitroServer.Runner.Slots

namespace NitroServer.Runner

open Engine (Bytes)
open Lib

variable {U : UserCode}

/-- An answer to the request, or the end of one. -/
def Act.answers (id : Int64) : Act U → Bool
  | .answer j _ _ => j == id
  | .streamEnded j => j == id
  | _ => false

/-- What the runner sees of a request from some moment on: its heads and its chunks, each in
order, among actions that are about other requests. It is answered after the end of its body, and
no event retires it. -/
inductive Conversation (id : Int64) : List Head → List Chunk → List (Act U) → Prop where
  | nil : Conversation id [] [] []
  | other {a : Act U} {heads chunks as} : a.isAbout id = false → a ≠ .close →
      Conversation id heads chunks as → Conversation id heads chunks (a :: as)
  | head {head : Head} {heads chunks as} : head.requestId = id →
      Conversation id heads chunks as → Conversation id (head :: heads) chunks (.head head :: as)
  | chunk {c : Chunk} {heads chunks as} :
      Conversation id heads chunks as → Conversation id heads (c :: chunks) (.chunk id c :: as)
  | event {heads chunks as} :
      Conversation id heads chunks as → Conversation id heads chunks (.event id false :: as)
  | answer {a : Act U} {heads chunks as} : a.answers id = true → .end_ ∉ chunks →
      Conversation id heads chunks as → Conversation id heads chunks (a :: as)

namespace Machine

variable {host : Host U} {s t : Machine U} {id : Int64} {head : Head} {got datas : List Bytes}
  {as : List (Act U)}

/-- What a handler that was started with the context can read: its body, or all of its stream,
once that is closed. -/
def readable (s : Machine U) (id : Int64) (context : Context) : Option Bytes :=
  if context.bodyStream then
    (s.uploads.find id).bind fun u =>
      if u.closed ∧ u.error = none then some u.chunks.flatten else none
  else some context.body

/-! ### Where a request stands -/

/-- The head has yet to come. -/
structure Ahead (s : Machine U) (id : Int64) (got : List Bytes) (ended : Bool) : Prop where
  open_ : s.closed = false
  fresh : id ∉ s.completed.keys
  pending : s.pending.find id = none
  early : (s.early.find id).getD [] = got
  errors : s.earlyErrors.find id = none
  ends : (s.earlyComplete.find id).isSome = ended
  outbound : s.outbound.find id = none
  idle : id ∉ s.waiting
  starts : s.starts id = []

/-- The body is gathered for the handler. -/
structure Gathering (s : Machine U) (id : Int64) (head : Head) (got : List Bytes) : Prop where
  open_ : s.closed = false
  fresh : id ∉ s.completed.keys
  pending : s.pending.find id = some { head := head, body := got.flatten }
  outbound : s.outbound.find id = none
  idle : id ∉ s.waiting
  starts : s.starts id = []

/-- The handler reads the body as it comes. -/
structure Streaming (s : Machine U) (id : Int64) (head : Head) (got : List Bytes) : Prop where
  open_ : s.closed = false
  fresh : id ∉ s.completed.keys
  pending : ∃ p, s.pending.find id = some p ∧ p.streaming = true
  upload : ∃ chunks, s.uploads.find id = some { chunks := chunks } ∧ chunks.flatten = got.flatten
  starts : s.starts id = [contextOf { head := head, streaming := true }]

/-- The handler has been started, and its body has ended. -/
structure Served (s : Machine U) (id : Int64) (head : Head) (got : List Bytes) : Prop where
  starts : ∃ p : Pending, p.head = head ∧ s.starts id = [contextOf p] ∧
    s.readable id (contextOf p) = some got.flatten

theorem ahead_start (id : Int64) : Ahead ({} : Machine U) id [] false :=
  ⟨rfl, List.not_mem_nil, rfl, rfl, rfl, rfl, rfl, List.not_mem_nil, rfl⟩

/-! ### Steps about other requests -/

section Same

variable (agree : SameSlot id s t)

include agree

theorem Ahead.same {ended : Bool} (h : Ahead s id got ended) : Ahead t id got ended :=
  ⟨agree.closed.trans h.open_, fun mem => h.fresh (agree.completed mem),
    agree.pending.trans h.pending,
    agree.early ▸ h.early, agree.earlyErrors.trans h.errors, agree.earlyComplete ▸ h.ends,
    agree.outbound.trans h.outbound, fun mem => h.idle (agree.waiting.mp mem),
    agree.starts.trans h.starts⟩

theorem Gathering.same (h : Gathering s id head got) : Gathering t id head got :=
  ⟨agree.closed.trans h.open_, fun mem => h.fresh (agree.completed mem),
    agree.pending.trans h.pending,
    agree.outbound.trans h.outbound, fun mem => h.idle (agree.waiting.mp mem),
    agree.starts.trans h.starts⟩

theorem Streaming.same (h : Streaming s id head got) : Streaming t id head got :=
  ⟨agree.closed.trans h.open_, fun mem => h.fresh (agree.completed mem), agree.pending ▸ h.pending,
    agree.uploads ▸ h.upload, agree.starts.trans h.starts⟩

theorem Served.same (h : Served s id head got) : Served t id head got := by
  obtain ⟨p, about, started, reads⟩ := h.starts
  refine ⟨p, about, agree.starts.trans started, ?_⟩
  rw [readable, agree.uploads]
  exact reads

end Same

/-! ### The handler is started -/

/-- A request that is complete starts one handler or session, with what was gathered for it. -/
theorem dispatch_starts {p : Pending} (found : s.pending.find id = some p)
    (new : p.dispatched = false) (fine : p.error = none) :
    (s.dispatch host id).starts id = s.starts id ++ [contextOf p] ∧
      (s.dispatch host id).uploads = s.uploads := by
  have ran (s : Machine U) (answerer : Answerer U) :
      (s.runHandler id answerer (contextOf p)).starts id = s.starts id ++ [contextOf p] := by
    refine (starts_emit _ id).trans (congrArg (s.starts id ++ ·) ?_)
    rw [Output.startOf, if_pos rfl]
    rfl
  have opened (s : Machine U) (ws : WsEntry U) :
      (s.dispatchWs host id (contextOf p) ws).starts id = s.starts id ++ [contextOf p] ∧
        (s.dispatchWs host id (contextOf p) ws).uploads = s.uploads := by
    have before : ∀ s : Machine U, (s.emit (.upgrade id (contextOf p))).starts id =
        s.starts id ++ [contextOf p] := by
      intro s
      refine (starts_emit _ id).trans (congrArg (s.starts id ++ ·) ?_)
      rw [Output.startOf, if_pos rfl]
      rfl
    rw [dispatchWs]
    split
    · have ws : WsOnly _ (Machine.runWs host _ _ _) :=
        ws_runWs (s.openWs host id (contextOf p)) id s.sessions.length
      exact ⟨(ws.sameSlot id).starts.trans (before _), ws.uploads⟩
    · exact ⟨before _, rfl⟩
  rw [dispatch, found]
  dsimp only
  rw [if_neg (by simp [new]), if_neg (by simp [fine])]
  split
  · exact ⟨ran _ _, rfl⟩
  · split
    · exact opened _ _
    · exact ⟨ran _ _, rfl⟩

/-- A request of a registered route starts its handler. -/
theorem dispatch_handler {p : Pending} {e : Entry U} (found : s.pending.find id = some p)
    (new : p.dispatched = false) (fine : p.error = none) (entry : s.entryFor p.head = some e) :
    s.dispatch host id = (s.putPending id { p with dispatched := true }).runHandler id
      (.handler e.piped) (contextOf p) := by
  have same : (s.putPending id { p with dispatched := true }).entryFor p.head = some e := entry
  rw [dispatch, found]
  dsimp only
  rw [if_neg (by simp [new]), if_neg (by simp [fine])]
  rw [putPending] at same ⊢
  rw [same]

/-! ### Steps about the request -/

theorem Ahead.data {ended : Bool} (h : Ahead s id got ended) (room : s.parked < parkedLimit)
    (bytes : Bytes) : Ahead (s.onData id bytes) id (got ++ [bytes]) ended := by
  have copied : (s.copyChunk id).pending.find id = none := h.pending
  have quiet : (s.copyChunk id).starts id = [] :=
    (same_copyChunk s id).starts.trans h.starts
  rw [onData, if_neg (by simpa using h.fresh)]
  dsimp only
  rw [copied]
  dsimp only
  rw [parked_early (by exact room)]
  exact ⟨h.open_, h.fresh, h.pending, by simp [copyChunk, emit, h.early], h.errors, h.ends,
    h.outbound, h.idle, quiet⟩

theorem Ahead.ended (h : Ahead s id got false) (room : s.parked < parkedLimit) :
    Ahead (s.onEnd host id) id got true := by
  rw [onEnd, h.pending]
  dsimp only
  rw [parked_earlyComplete room]
  exact ⟨h.open_, h.fresh, h.pending, h.early, h.errors, by simp, h.outbound, h.idle, h.starts⟩

/-- The request that the head makes. -/
theorem Ahead.taken_eq {ended : Bool} (h : Ahead s id got ended) (about : head.requestId = id) :
    s.taken head = { head := head, body := got.flatten } := by
  rw [taken, about, h.early, h.errors]

theorem served_dispatch {p : Pending} (found : s.pending.find id = some p)
    (new : p.dispatched = false) (fine : p.error = none) (gathered : p.streaming = false)
    (whole : p.body = got.flatten) (quiet : s.starts id = []) :
    Served (s.dispatch host id) id p.head got := by
  refine ⟨p, rfl, ?_, ?_⟩
  · rw [(dispatch_starts found new fine).1, quiet, List.nil_append]
  · rw [readable, if_neg (by simp [contextOf, gathered])]
    exact congrArg some whole

/-- The head comes when the body has ended. -/
theorem Ahead.head_last (h : Ahead s id got true) (about : head.requestId = id)
    (body : head.hasBody = true) (later : head.bodyComplete = false) :
    Served (s.onHead host head) id head got := by
  have taken := h.taken_eq about
  have ends : ((s.takeIn head).earlyComplete.find id).isSome = true := h.ends
  rw [onHead, about, if_neg (by simp [h.open_, h.fresh, h.pending])]
  dsimp only
  rw [if_neg (by simp [body, later]), if_pos ends, taken]
  exact served_dispatch (p := { head := head, body := got.flatten, complete := true })
    (Table.find_set.trans (if_pos rfl)) rfl rfl rfl rfl h.starts

/-- The head comes before the end of the body. -/
theorem Ahead.head_first (h : Ahead s id got false) (about : head.requestId = id)
    (body : head.hasBody = true) (later : head.bodyComplete = false) :
    Streaming (s.onHead host head) id head got ∨ Gathering (s.onHead host head) id head got := by
  have taken := h.taken_eq about
  have ends : ((s.takeIn head).earlyComplete.find id).isSome = false := h.ends
  rw [onHead, about, if_neg (by simp [h.open_, h.fresh, h.pending])]
  dsimp only
  rw [if_neg (by simp [body, later]), if_neg (by simp [ends]), taken]
  split
  · rename_i streams
    left
    obtain ⟨e, entry, -⟩ : ∃ e, (s.takeIn head).entryFor head = some e ∧ e.streamBody = true := by
      cases found : (s.takeIn head).entryFor head with
      | none => simp [found] at streams
      | some e => exact ⟨e, rfl, by simpa [found] using streams⟩
    rw [ackNow, ackCount_eq, dispatch_handler (Table.find_set.trans (if_pos rfl)) rfl rfl entry]
    refine ⟨h.open_, h.fresh, ⟨_, Table.find_set.trans (if_pos rfl), rfl⟩,
      ⟨_, Table.find_set.trans (if_pos rfl), ?_⟩, ?_⟩
    · split
      · rename_i empty
        exact empty.symm
      · exact List.flatten_singleton
    · refine (starts_emit _ id).trans ?_
      rw [Output.startOf, if_pos rfl]
      have quiet : (s.out ++ ackOut id (s.acked.find id)).filterMap (Output.startOf id) = [] := by
        rw [List.filterMap_append, ackOut_start, List.append_nil]
        exact h.starts
      exact congrArg (· ++ [_]) quiet
  · right
    refine ⟨h.open_, h.fresh, ?_, h.outbound, h.idle, h.starts⟩
    rw [takeIn, about, taken]
    exact Table.find_set.trans (if_pos rfl)

theorem Gathering.data (h : Gathering s id head got) (bytes : Bytes) :
    Gathering (s.onData id bytes) id head (got ++ [bytes]) := by
  have found : (s.copyChunk id).pending.find id = some { head := head, body := got.flatten } :=
    h.pending
  have quiet : (s.copyChunk id).starts id = [] := (same_copyChunk s id).starts.trans h.starts
  rw [onData, if_neg (by simpa using h.fresh)]
  dsimp only
  rw [found]
  refine ⟨h.open_, h.fresh, ?_, h.outbound, h.idle, quiet⟩
  rw [List.flatten_append, List.flatten_singleton]
  exact Table.find_set.trans (if_pos rfl)

theorem Gathering.ended (h : Gathering s id head got) : Served (s.onEnd host id) id head got := by
  rw [onEnd, h.pending]
  exact served_dispatch (p := { head := head, body := got.flatten, complete := true })
    (Table.find_set.trans (if_pos rfl)) rfl rfl rfl rfl h.starts

theorem Streaming.data (h : Streaming s id head got) (bytes : Bytes) :
    Streaming (s.onData id bytes) id head (got ++ [bytes]) := by
  obtain ⟨p, found, streams⟩ := h.pending
  obtain ⟨chunks, upload, read⟩ := h.upload
  have found' : (s.copyChunk id).pending.find id = some p := found
  have upload' : (s.copyChunk id).uploads.find id = some { chunks := chunks } := upload
  have started := (same_copyChunk (j := id) s id).starts.trans h.starts
  rw [onData, if_neg (by simpa using h.fresh)]
  dsimp only
  rw [found', upload']
  dsimp only
  rw [if_pos streams, if_neg Bool.false_ne_true]
  refine Streaming.same (same_ackNow _) ⟨h.open_, h.fresh, ⟨p, found, streams⟩,
    ⟨chunks ++ [bytes], Table.find_set.trans (if_pos rfl), ?_⟩, started⟩
  rw [List.flatten_append, List.flatten_append, read]

theorem Streaming.ended (h : Streaming s id head got) : Served (s.onEnd host id) id head got := by
  obtain ⟨p, found, streams⟩ := h.pending
  obtain ⟨chunks, upload, read⟩ := h.upload
  rw [onEnd, found]
  dsimp only
  rw [if_pos streams]
  have closed := find_closeUpload (s.putPending id { p with complete := true }) id id
  have upload' : (s.putPending id { p with complete := true }).uploads.find id =
      some { chunks := chunks } := upload
  rw [if_pos rfl, upload'] at closed
  refine ⟨{ head := head, streaming := true }, rfl, ?_, ?_⟩
  · rw [closeUpload_eq]
    exact h.starts
  · rw [readable]
    refine (if_pos rfl).trans ?_
    rw [closed]
    exact congrArg some read

/-! ### Steps after the body -/

/-- Nothing is started for the request, and its stream is at most closed. -/
structure Settled (id : Int64) (s t : Machine U) : Prop where
  starts : t.starts id = s.starts id
  uploads : t.uploads.find id = s.uploads.find id ∨
    t.uploads.find id = (s.uploads.find id).map fun u => { u with closed := true }

namespace Settled

theorem of_same (agree : SameSlot id s t) : Settled id s t := ⟨agree.starts, .inl agree.uploads⟩

theorem trans {u : Machine U} (first : Settled id s t) (second : Settled id t u) :
    Settled id s u := by
  refine ⟨second.starts.trans first.starts, ?_⟩
  rcases second.uploads with same | closed
  · rw [same]
    exact first.uploads
  · right
    rcases first.uploads with same | closed'
    · rw [closed, same]
    · rw [closed, closed', Option.map_map]
      rfl

end Settled

theorem settled_complete (s : Machine U) (id : Int64) : Settled id s (s.complete id) := by
  refine ⟨starts_complete s id id, ?_⟩
  rw [complete_eq, endStream]
  split
  · split
    · right
      dsimp only
      rw [find_closeUpload, if_pos rfl]
    · exact .inl rfl
  · exact .inl rfl

theorem settled_deliver (s : Machine U) (response : Response) (opened : Bool) :
    Settled id s (s.deliver host id response opened) := by
  rw [deliver]
  split
  · exact .of_same (.refl id s)
  · refine Settled.trans
      (.of_same (same_events id (gate host.lib host.serverHeader response).2 s)) ?_
    dsimp only
    split
    · rw [answerStream]
      split
      · exact .of_same (.refl id _)
      · split
        · exact ⟨(same_emit (j := id) _ (o := .answer id _) rfl).starts, .inl rfl⟩
        · exact settled_complete _ id
    · refine Settled.trans ?_ (settled_complete _ id)
      rw [answerNow]
      split
      · exact .of_same (.refl id _)
      · exact .of_same (same_emit _ rfl)

theorem settled_finishStream (s : Machine U) (id : Int64) : Settled id s (s.finishStream id) := by
  rw [finishStream]
  refine Settled.trans (t := { s with outbound := s.outbound.erase id }) ⟨rfl, .inl rfl⟩
    (Settled.trans ?_ (settled_complete _ id))
  split
  · exact .of_same (.refl id _)
  · exact .of_same (same_emit _ rfl)

theorem Served.settled (h : Served s id head got) (later : Settled id s t) :
    Served t id head got := by
  obtain ⟨p, about, started, reads⟩ := h.starts
  refine ⟨p, about, later.starts.trans started, ?_⟩
  rw [readable] at reads ⊢
  split
  · rename_i streams
    rw [if_pos streams, Option.bind_eq_some_iff] at reads
    obtain ⟨u, found, read⟩ := reads
    rcases later.uploads with same | closed
    · rw [same, found]
      exact read
    · rw [closed, found]
      simp only [Option.map_some, Option.bind_some, true_and]
      simp only [Option.ite_none_right_eq_some] at read ⊢
      exact ⟨read.1.2, read.2⟩
  · rename_i whole
    rwa [if_neg whole] at reads

/-- An answer changes nothing about what has been started. -/
theorem settled_answers {a : Act U} (h : step host s a = some t) (answers : a.answers id = true) :
    Settled id s t := by
  cases a with
  | answer j response opened =>
      obtain rfl : j = id := by simpa [Act.answers] using answers
      rw [step] at h
      split at h
      · cases h
        exact Settled.trans (t := { s with waiting := s.waiting.erase j }) ⟨rfl, .inl rfl⟩
          (settled_deliver _ response opened)
      · cases h
  | streamEnded j =>
      obtain rfl : j = id := by simpa [Act.answers] using answers
      obtain ⟨_, _, rfl⟩ := Option.map_eq_some_iff.mp h
      exact settled_finishStream s j
  | _ => cases answers

/-! ### Runs -/

/-- An event that retires nothing. -/
theorem onEvent_false (s : Machine U) (id : Int64) : s.onEvent id false = s := by
  rw [onEvent]
  split <;> rfl

/-- A request without a handler that is still to return is not answered. -/
theorem not_answered {a : Act U} (idle : id ∉ s.waiting) (outbound : s.outbound.find id = none)
    (answers : a.answers id = true) : step host s a = none := by
  cases a with
  | answer j response opened =>
      obtain rfl : j = id := by simpa [Act.answers] using answers
      rw [step, if_neg idle]
  | streamEnded j =>
      obtain rfl : j = id := by simpa [Act.answers] using answers
      rw [step, outbound]
      rfl
  | _ => cases answers

/-- One step of a run with room for what is parked. -/
theorem exec_step {a : Act U} (run : exec (guarded Roomy (step host)) (a :: as) s = some t) :
    ∃ u, Roomy s a ∧ step host s a = some u ∧ exec (guarded Roomy (step host)) as u = some t := by
  obtain ⟨u, first, rest⟩ := Option.bind_eq_some_iff.mp run
  simp only [guarded, Option.ite_none_right_eq_some] at first
  exact ⟨u, first.1, first.2, rest⟩

theorem served_run (talk : Conversation id [] [] as) (h : Served s id head got)
    (run : exec (guarded Roomy (step host)) as s = some t) : Served t id head got := by
  generalize noHeads : ([] : List Head) = heads at talk
  generalize noChunks : ([] : List Chunk) = chunks at talk
  induction talk generalizing s with
  | nil =>
      cases run
      exact h
  | other about open_ _ ih =>
      obtain ⟨u, room, first, rest⟩ := exec_step run
      exact ih (h.same (step_other first room about open_)) rest noHeads noChunks
  | head _ _ _ => cases noHeads
  | chunk _ _ => cases noChunks
  | event _ ih =>
      obtain ⟨u, room, first, rest⟩ := exec_step run
      rw [step, onEvent_false] at first
      cases first
      exact ih h rest noHeads noChunks
  | answer answers _ _ ih =>
      obtain ⟨u, room, first, rest⟩ := exec_step run
      exact ih (h.settled (settled_answers first answers)) rest noHeads noChunks

/-- The messages of a body. -/
def bodyChunks (datas : List Bytes) : List Chunk := datas.map .data ++ [.end_]

theorem end_mem_bodyChunks (datas : List Bytes) : .end_ ∈ bodyChunks datas :=
  List.mem_append_right _ (List.mem_singleton.mpr rfl)

/-- From the head on: until the end of the body a request gathers it or streams it. -/
theorem reading_run (talk : Conversation id [] (bodyChunks datas) as)
    (h : Streaming s id head got ∨ Gathering s id head got)
    (run : exec (guarded Roomy (step host)) as s = some t) : Served t id head (got ++ datas) := by
  generalize noHeads : ([] : List Head) = heads at talk
  generalize shape : bodyChunks datas = chunks at talk
  induction talk generalizing s got datas with
  | nil => simp [bodyChunks] at shape
  | other about open_ _ ih =>
      obtain ⟨u, room, first, rest⟩ := exec_step run
      have agree := step_other first room about open_
      exact ih (h.imp (·.same agree) (·.same agree)) rest noHeads shape
  | head _ _ _ => cases noHeads
  | chunk talk ih =>
      obtain ⟨u, room, first, rest⟩ := exec_step run
      have open_ : s.closed = false := h.elim (·.open_) (·.open_)
      cases datas with
      | nil =>
          obtain ⟨rfl, rfl⟩ := List.cons.inj shape
          rw [step, onChunk_end open_] at first
          cases first
          subst noHeads
          rw [List.append_nil]
          exact served_run talk (h.elim (·.ended) (·.ended)) rest
      | cons bytes datas =>
          obtain ⟨rfl, rest'⟩ := List.cons.inj shape
          rw [step, onChunk_data open_] at first
          cases first
          rw [List.append_cons]
          exact ih (h.imp (·.data bytes) (·.data bytes)) rest noHeads rest'
  | event _ ih =>
      obtain ⟨u, room, first, rest⟩ := exec_step run
      rw [step, onEvent_false] at first
      cases first
      exact ih h rest noHeads shape
  | answer _ unended _ _ => exact absurd (shape ▸ end_mem_bodyChunks datas) unended

/-- The body is over, the head is still to come. -/
theorem ended_run (talk : Conversation id [head] [] as) (body : head.hasBody = true)
    (later : head.bodyComplete = false) (h : Ahead s id got true)
    (run : exec (guarded Roomy (step host)) as s = some t) : Served t id head got := by
  generalize oneHead : [head] = heads at talk
  generalize noChunks : ([] : List Chunk) = chunks at talk
  induction talk generalizing s with
  | nil => cases oneHead
  | other about open_ _ ih =>
      obtain ⟨u, room, first, rest⟩ := exec_step run
      exact ih (h.same (step_other first room about open_)) rest oneHead noChunks
  | head about talk _ =>
      obtain ⟨u, room, first, rest⟩ := exec_step run
      obtain ⟨rfl, rfl⟩ := List.cons.inj oneHead
      cases first
      subst noChunks
      exact served_run talk (h.head_last about body later) rest
  | chunk _ _ => cases noChunks
  | event _ ih =>
      obtain ⟨u, room, first, rest⟩ := exec_step run
      rw [step, onEvent_false] at first
      cases first
      exact ih h rest oneHead noChunks
  | answer answers _ _ _ =>
      obtain ⟨u, room, first, rest⟩ := exec_step run
      rw [not_answered h.idle h.outbound answers] at first
      cases first

theorem ahead_run (talk : Conversation id [head] (bodyChunks datas) as) (body : head.hasBody = true)
    (later : head.bodyComplete = false) (h : Ahead s id got false)
    (run : exec (guarded Roomy (step host)) as s = some t) : Served t id head (got ++ datas) := by
  generalize oneHead : [head] = heads at talk
  generalize shape : bodyChunks datas = chunks at talk
  induction talk generalizing s got datas with
  | nil => cases oneHead
  | other about open_ _ ih =>
      obtain ⟨u, room, first, rest⟩ := exec_step run
      exact ih (h.same (step_other first room about open_)) rest oneHead shape
  | head about talk _ =>
      obtain ⟨u, room, first, rest⟩ := exec_step run
      obtain ⟨rfl, rfl⟩ := List.cons.inj oneHead
      cases first
      subst shape
      exact reading_run talk (h.head_first about body later) rest
  | chunk talk ih =>
      obtain ⟨u, room, first, rest⟩ := exec_step run
      cases datas with
      | nil =>
          obtain ⟨rfl, rfl⟩ := List.cons.inj shape
          rw [step, onChunk_end h.open_] at first
          cases first
          subst oneHead
          rw [List.append_nil]
          exact ended_run talk body later (h.ended room) rest
      | cons bytes datas =>
          obtain ⟨rfl, rest'⟩ := List.cons.inj shape
          rw [step, onChunk_data h.open_] at first
          cases first
          rw [List.append_cons]
          exact ih (h.data room bytes) rest oneHead rest'
  | event _ ih =>
      obtain ⟨u, room, first, rest⟩ := exec_step run
      rw [step, onEvent_false] at first
      cases first
      exact ih h rest oneHead shape
  | answer answers _ _ _ =>
      obtain ⟨u, room, first, rest⟩ := exec_step run
      rw [not_answered h.idle h.outbound answers] at first
      cases first

/-- A chunk before the head, two requests at once, and an answer before the other's body ends. -/
def crossing : List (Act sampleCode) :=
  [.chunk 7 (.data [1]), .head (sampleHead 8 true), .head (sampleHead 7 true), .chunk 7 (.data [2]),
    .chunk 7 .end_, .chunk 8 (.data [3]), .answer 7 sampleAnswer true, .chunk 8 .end_]

end Machine

end NitroServer.Runner
