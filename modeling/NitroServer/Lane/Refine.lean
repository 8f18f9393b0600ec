/-
The reactor refines the lane machine.

`step_lane` — every step of a well-formed reactor is a run of lane moves that
`good` admits, once `good` admits the moves without a cause of their own and, for
the step at hand, the four that have one (`Causes`). `run_lane` says the same of whole
runs, and `Fresh.wf` that a connection just accepted is well-formed.
-/

import NitroServer.Lane.Http

namespace NitroServer.Engine

open NitroServer.Lib

variable (env : Env) {good : Lane → Move → Prop}

/-! ### The inbox -/

theorem lane_pushWrite {r : Reactor} {e : Pending} (own : e.connId = r.conn.id) :
    (r.pushWrite e).lane =
      { r.lane with queue := r.lane.queue ++ [e], marks := r.lane.marks ++ [.queued e] } := by
  simp [Reactor.pushWrite, Reactor.lane, Reactor.ownReqs, Reactor.ownQueue, Ev.marks, own]

theorem lane_pushWrite_other {r : Reactor} {e : Pending} (other : e.connId ≠ r.conn.id) :
    (r.pushWrite e).lane = r.lane := by
  simp [Reactor.pushWrite, Reactor.lane, Reactor.ownReqs, Reactor.ownQueue, Ev.marks, other]

/-- An id of another connection is not erased from the lane. -/
theorem Reactor.WF.erase_other {r : Reactor} (hwf : r.WF) {id : Nat} {loc : ReqLoc}
    (found : r.findReq id = some loc) (other : loc.connId ≠ r.conn.id) :
    r.lane.erase id = r.lane := by
  obtain ⟨e, he, rfl⟩ := mem_others_of_findReq found other
  have absent := (hwf.others e he).2
  have kept : r.lane.reqs.filter (fun e' => e'.1 != e.1) = r.lane.reqs :=
    List.filter_eq_self.mpr fun e' he' => by
      have : e'.1 ≠ e.1 := fun heq =>
        absent (Lane.mem_ids.mpr (.inl (heq ▸ List.mem_map_of_mem he')))
      simpa using this
  simp [Lane.erase, kept]

/-- An answer call that leaves the request open. -/
theorem tracks_push {r : Reactor} {id : Nat} {loc : ReqLoc} {e : Pending}
    (found : r.findReq id = some loc) (shaped : e.shaped id loc = true)
    (more : e.isLast = false) (hgood : good r.lane (.push id e)) :
    Tracks good r (r.pushWrite e) := by
  have conn : e.connId = loc.connId := by
    simp only [Pending.shaped, Bool.and_eq_true, beq_iff_eq] at shaped
    exact shaped.1.1.2
  by_cases own : loc.connId = r.conn.id
  · refine .step (m := .push id e) ?_ hgood rfl rfl
    rw [lane_pushWrite (conn.trans own)]
    exact .push (find_of_own found own) shaped more
  · exact Quiet.tracks ⟨lane_pushWrite_other (conn ▸ own), rfl, rfl⟩

/-- An answer call that ends the request. -/
theorem tracks_pushLast {r : Reactor} (hwf : r.WF) {id : Nat} {loc : ReqLoc} {e : Pending}
    (found : r.findReq id = some loc) (shaped : e.shaped id loc = true)
    (last : e.isLast = true) (hgood : good r.lane (.push id e)) :
    Tracks good r ((r.eraseReq id).pushWrite e) := by
  have conn : e.connId = loc.connId := by
    simp only [Pending.shaped, Bool.and_eq_true, beq_iff_eq] at shaped
    exact shaped.1.1.2
  by_cases own : loc.connId = r.conn.id
  · refine .ofStep (m := .push id e) ?_ hgood (mem_others_eraseReq (r := r)) rfl
    rw [lane_pushWrite (r := r.eraseReq id) (conn.trans own), lane_eraseReq]
    exact .pushLast (find_of_own found own) shaped last
  · have lane : ((r.eraseReq id).pushWrite e).lane = r.lane := by
      rw [lane_pushWrite_other (r := r.eraseReq id) (conn ▸ own), lane_eraseReq,
        hwf.erase_other found own]
    exact ⟨lane ▸ .refl, mem_others_eraseReq (r := r), rfl, fun h => h⟩

/-! ### Answer calls -/

/-- The calls that begin an answer. -/
def Act.opens (id : Nat) : Act → Bool
  | .respond i _ _ _ | .respondFile i _ _ _ _ _ | .startStream i _ _ => i == id
  | _ => false

/-- These bytes take the chunked upload under way past its cap. -/
def Reactor.uploadOverCap (r : Reactor) (data : Bytes) : Bool :=
  r.conn.streamingBody && r.conn.streamChunked &&
    (scanChunks r.conn.streamMaxBody ((r.conn.buf ++ data).length + 1)
      (r.received data).chunkScan).1 == .tooLarge

/-- The request in flight is past its deadline, or its upload stalled. -/
def Reactor.overdue (r : Reactor) : Bool :=
  (r.conn.hasDeadline && decide (r.conn.reqDeadline ≤ r.clock)) ||
    (r.conn.streamingBody && decide (0 < Reactor.bodyMs env) &&
      r.elapsed r.conn.lastActive (Reactor.bodyMs env))

/-- What admits the moves with a cause of their own, in the step `a` from `r`. -/
structure Causes (good : Lane → Move → Prop) (r : Reactor) (a : Act) : Prop where
  guard : ∀ data p, a = .read data → (r.received data).busyBufferFull env = true →
    good r.lane (.guard p)
  abort : ∀ data p, a = .read data → r.uploadOverCap data = true → good r.lane (.abort p)
  timeOut : ∀ l p, a = .sweep → r.overdue env = true → l.closing = false →
    l.marks = r.lane.marks → l.reqs.map Prod.fst = r.lane.reqs.map Prod.fst →
    l.inFlight = r.lane.inFlight → good l (.timeOut p)
  opening : ∀ id e, a.opens id = true → e.piece.part = .whole ∨ e.piece.part = .head →
    good r.lane (.push id e)
  chunk : ∀ id bytes last e, a = .sendStreamChunk id bytes last →
    e.piece.part = .chunk ∨ e.piece.part = .last → good r.lane (.push id e)

theorem tracks_respondWith {r : Reactor} (hwf : r.WF) {id status : Nat} {headers : List Header}
    {body : Bytes} {n : Nat}
    (hgood : ∀ e : Pending, e.piece.part = .whole ∨ e.piece.part = .head →
      good r.lane (.push id e)) :
    Tracks good r (r.respondWith env id status headers body n) := by
  unfold Reactor.respondWith
  split
  · exact .refl r
  · split
    · exact .refl r
    · rename_i loc found
      refine tracks_pushLast hwf found ?_ rfl (hgood _ (.inl rfl))
      simp [Pending.shaped, opens_uvBuildHead]

theorem tracks_respondFile {r : Reactor} (hwf : r.WF) {id status : Nat}
    {headers : List Header} {size : Option Nat} {offset length : Int}
    (hgood : ∀ e : Pending, e.piece.part = .whole ∨ e.piece.part = .head →
      good r.lane (.push id e)) :
    Tracks good r (r.respondFile env id status headers size offset length) := by
  unfold Reactor.respondFile
  split
  · exact .refl r
  · split
    · exact tracks_respondWith env hwf hgood
    · dsimp only
      split
      · exact tracks_respondWith env hwf hgood
      · split
        · exact .refl r
        · rename_i loc found
          split
          · exact tracks_respondWith env hwf hgood
          · refine tracks_pushLast hwf found ?_ rfl (hgood _ (.inr rfl))
            simp [Pending.shaped, opens_head]

theorem tracks_startStream {r : Reactor} (hwf : r.WF) {id status : Nat} {headers : List Header}
    (hgood : ∀ e : Pending, e.piece.part = .whole ∨ e.piece.part = .head →
      good r.lane (.push id e)) :
    Tracks good r (r.startStream env id status headers) := by
  unfold Reactor.startStream
  split
  · exact .refl r
  · split
    · exact .refl r
    · rename_i loc found
      dsimp only
      split
      · -- a HEAD request is erased after its entry is queued
        set e : Pending := ⟨loc.connId, ⟨.request id, .whole, _⟩, loc.keepAlive, true, none⟩
        have shaped : e.shaped id loc = true := by simp [e, Pending.shaped, opens_streamHead]
        have erased : Tracks good r ((r.eraseReq id).pushWrite e) :=
          tracks_pushLast hwf found shaped rfl (hgood e (.inl rfl))
        have lane : ((r.pushWrite e).eraseReq id).lane = ((r.eraseReq id).pushWrite e).lane := by
          simp [Reactor.pushWrite, Reactor.eraseReq, Reactor.lane, Reactor.ownReqs,
            Reactor.ownQueue, Ev.marks]
        exact ⟨lane ▸ erased.lane, erased.others, rfl, erased.session⟩
      · refine tracks_push found ?_ rfl (hgood _ (.inr rfl))
        simp [Pending.shaped, opens_streamHead]

theorem tracks_sendStreamChunk {r : Reactor} (hwf : r.WF) {id : Nat} {bytes : Bytes}
    {last : Bool}
    (hgood : ∀ e : Pending, e.piece.part = .chunk ∨ e.piece.part = .last →
      good r.lane (.push id e)) :
    Tracks good r (r.sendStreamChunk id bytes last) := by
  unfold Reactor.sendStreamChunk
  split
  · exact .refl r
  · split
    · exact .refl r
    · split
      · exact .refl r
      · rename_i loc found
        dsimp only
        split
        · refine tracks_pushLast hwf found ?_ rfl (hgood _ (.inr rfl))
          simp [Pending.shaped]
        · refine tracks_push found ?_ rfl (hgood _ (.inl rfl))
          simp [Pending.shaped]

/-! ### Draining the inbox -/

/-- A group of one write: a file alone, or entries of one connection of which only
the last may finish. -/
structure Grouped (g : Pending × List Pending) : Prop where
  alone : g.1.file.isSome = true → g.2 = []
  same : ∀ e ∈ g.2, e.connId = g.1.connId ∧ e.file = none
  unfinished : ∀ e ∈ (g.1 :: g.2).dropLast, e.finish = false

theorem groups_flatten (queue : List Pending) :
    (Reactor.groups queue).flatMap (fun g => g.1 :: g.2) = queue := by
  induction queue with
  | nil => rfl
  | cons e rest ih =>
      unfold Reactor.groups
      cases hg : Reactor.groups rest with
      | nil =>
          rw [hg] at ih
          simp at ih
          simp [← ih]
      | cons g later =>
          rw [hg] at ih
          obtain ⟨next, more⟩ := g
          simp only
          split <;> simpa using ih

theorem groups_grouped (queue : List Pending) :
    ∀ g ∈ Reactor.groups queue, Grouped g := by
  have single : ∀ e : Pending, Grouped (e, []) := fun e => ⟨fun _ => rfl, by simp, by simp⟩
  induction queue with
  | nil => simp [Reactor.groups]
  | cons e rest ih =>
      unfold Reactor.groups
      cases hg : Reactor.groups rest with
      | nil => simpa using single e
      | cons g later =>
          rw [hg] at ih
          obtain ⟨next, more⟩ := g
          have nextOk := ih (next, more) List.mem_cons_self
          simp only
          split
          · rename_i h
            obtain ⟨file, fin, conn, nextFile⟩ := h
            intro g' hg'
            rcases List.mem_cons.mp hg' with rfl | hg'
            · refine ⟨fun hf => ?_, fun e' he' => ?_, fun e' he' => ?_⟩
              · simp only [Option.isNone_iff_eq_none] at file
                simp [file] at hf
              · rcases List.mem_cons.mp he' with rfl | he'
                · exact ⟨conn, by simpa using nextFile⟩
                · exact ⟨(nextOk.same e' he').1.trans conn, (nextOk.same e' he').2⟩
              · rw [List.dropLast_cons_of_ne_nil (List.cons_ne_nil _ _)] at he'
                rcases List.mem_cons.mp he' with rfl | he'
                · simpa using fin
                · exact nextOk.unfinished e' he'
            · exact ih g' (List.mem_cons_of_mem _ hg')
          · intro g' hg'
            rcases List.mem_cons.mp hg' with rfl | hg'
            · exact single e
            · exact ih g' hg'

/-! The inbox is not looked at while an answer is written. -/

def Reactor.withQueue (r : Reactor) (queue : List Pending) : Reactor := { r with queue }

theorem closeConn_withQueue (r : Reactor) (queue : List Pending) :
    (r.withQueue queue).closeConn = r.closeConn.withQueue queue := by
  unfold Reactor.closeConn Reactor.withQueue
  split <;> rfl

theorem wsCloseConn_withQueue (r : Reactor) (queue : List Pending) (code : Nat) :
    (r.withQueue queue).wsCloseConn env code = (r.wsCloseConn env code).withQueue queue := by
  unfold Reactor.wsCloseConn Reactor.withQueue
  split <;> rfl

theorem writeAnswer_withQueue (r : Reactor) (queue : List Pending) (ps : List Piece)
    (ka fin : Bool) :
    (r.withQueue queue).writeAnswer env ps ka fin =
      (r.writeAnswer env ps ka fin).withQueue queue := by
  have start : (r.withQueue queue).startAnswer env ps ka fin =
      (r.startAnswer env ps ka fin).withQueue queue := rfl
  unfold Reactor.writeAnswer
  rw [start]
  generalize r.startAnswer env ps ka fin = s
  dsimp only
  have conn : (s.withQueue queue).conn = s.conn := rfl
  rw [conn]
  split
  · exact wsCloseConn_withQueue env s queue 1009
  · split
    · exact closeConn_withQueue (s.broadcastEvent _ _ _) queue
    · rfl

theorem writeGroup_withQueue (r : Reactor) (queue : List Pending)
    (g : Pending × List Pending) :
    (r.withQueue queue).writeGroup env g = (r.writeGroup env g).withQueue queue := by
  have conn : (r.withQueue queue).conn = r.conn := rfl
  have gone : (r.withQueue queue).gone = r.gone := rfl
  unfold Reactor.writeGroup
  rw [conn, gone]
  split
  · rfl
  · split
    · exact writeAnswer_withQueue env (r.setConn _) queue _ _ _
    · exact writeAnswer_withQueue env r queue _ _ _

section Moves

variable (safe : Admits good)
include safe

/-- The entries of a closed connection are dropped. -/
theorem reaches_drop {l : Lane} {es rest : List Pending} (queue : l.queue = es ++ rest)
    (shut : l.gone = true ∨ l.closing = true) :
    Reaches Lane.Step good l { l with queue := rest } := by
  induction es generalizing l with
  | nil =>
      rw [List.nil_append] at queue
      exact queue ▸ .refl
  | cons e es ih =>
      have here : l.Step .drain { l with queue := es ++ rest } := .drop queue shut
      exact .head (safe.plain _ _ rfl) here (ih rfl shut)

/-- A group without a file goes out in one write. -/
theorem reaches_drain {l : Lane} {e : Pending} {es rest : List Pending}
    (queue : l.queue = e :: (es ++ rest)) (live : l.gone = false) (gate : l.closing = false)
    (files : ∀ e' ∈ e :: es, e'.file = none)
    (more : ∀ e' ∈ (e :: es).dropLast, e'.finish = false) :
    Reaches Lane.Step good l (({ l with queue := rest } : Lane).write ((e :: es).map Pending.piece)
      (if ((e :: es).getLast (List.cons_ne_nil _ _)).finish then
        some ((e :: es).getLast (List.cons_ne_nil _ _)).keepAlive else none)) := by
  induction es generalizing l e with
  | nil => exact .single (safe.plain _ .drain rfl) (.drain queue live gate (files e List.mem_cons_self))
  | cons e' es ih =>
      have fin : e.finish = false := more e (by simp)
      have here : l.Step .drain
          (({ l with queue := e' :: (es ++ rest) } : Lane).write [e.piece] none) := by
        have := Lane.Step.drain queue live gate (files e List.mem_cons_self)
        rwa [fin] at this
      refine .head (safe.plain _ .drain rfl) here ?_
      have := ih (l := ({ l with queue := e' :: (es ++ rest) } : Lane).write [e.piece] none) (e := e')
        rfl live gate (fun e'' he => files e'' (List.mem_cons_of_mem _ he))
        (fun e'' he => more e'' (by
          rw [List.dropLast_cons_of_ne_nil (List.cons_ne_nil _ _)]
          exact List.mem_cons_of_mem _ he))
      simpa [Lane.write] using this

/-- After an answer is written its connection may be closed. -/
theorem tracks_afterWrite (r : Reactor) (ps : List Piece) (ka fin : Bool) :
    Tracks good (r.startAnswer env ps ka fin) (r.writeAnswer env ps ka fin) := by
  unfold Reactor.writeAnswer
  dsimp only
  split
  · rename_i h
    exact tracks_wsCloseConn env safe h.1
  · split
    · exact (quiet_broadcast ..).tracks.trans (tracks_close safe _)
    · exact .refl _

theorem tracks_writeGroup {r : Reactor} {g : Pending × List Pending} {rest : List Pending}
    (hg : Grouped g) (queue : r.queue = g.1 :: g.2 ++ rest) :
    Tracks good r ((r.withQueue rest).writeGroup env g) := by
  obtain ⟨e, es⟩ := g
  dsimp only at queue
  have others : ∀ r' : Reactor, r'.reqLoc = r.reqLoc → r'.conn.id = r.conn.id →
      ∀ e ∈ r'.otherReqs, e.1 ∈ r.otherReqs.map Prod.fst :=
    fun r' h h' => mem_others_of_eq (otherReqs_congr h h')
  unfold Reactor.writeGroup
  by_cases own : e.connId = r.conn.id
  · have allOwn : ∀ e' ∈ e :: es, (e'.connId == r.conn.id) = true := by
      intro e' he'
      rcases List.mem_cons.mp he' with rfl | he'
      · simpa using own
      · simpa using (hg.same e' he').1.trans own
    have laneQueue : r.lane.queue = e :: es ++ (r.withQueue rest).lane.queue := by
      simp only [Reactor.lane, Reactor.withQueue, Reactor.ownQueue, queue, List.filter_append]
      rw [List.filter_eq_self.mpr allOwn]
    split
    · rename_i h
      have shut : r.lane.gone = true ∨ r.lane.closing = true := by
        rcases h with h | h | h
        · exact absurd own h
        · exact .inl h
        · exact .inr h
      exact ⟨reaches_drop safe laneQueue shut, others _ rfl rfl, rfl, fun h => h⟩
    · rename_i h
      simp only [not_or, Bool.not_eq_true] at h
      obtain ⟨-, live, gate⟩ := h
      split
      · rename_i f file
        have alone : es = [] := hg.alone (Option.isSome_of_eq_some file)
        subst alone
        refine Tracks.trans ?_ (tracks_afterWrite env safe _ _ _ _)
        refine ⟨.single (safe.plain _ .drain rfl) ?_, others _ rfl rfl, rfl, fun h => h⟩
        rw [lane_startAnswer]
        exact .drainFile laneQueue live gate file
      · rename_i file
        refine Tracks.trans ?_ (tracks_afterWrite env safe _ _ _ _)
        refine ⟨?_, others _ rfl rfl, rfl, fun h => h⟩
        rw [lane_startAnswer]
        refine reaches_drain safe laneQueue live gate (fun e' he' => ?_) hg.unfinished
        rcases List.mem_cons.mp he' with rfl | he'
        · exact file
        · exact (hg.same e' he').2
  · rw [if_pos (.inl own)]
    have noneOwn : (e :: es).filter (fun e' => e'.connId == r.conn.id) = [] := by
      refine List.filter_eq_nil_iff.mpr fun e' he' => ?_
      rcases List.mem_cons.mp he' with rfl | he'
      · simpa using own
      · simpa using fun h => own ((hg.same e' he').1 ▸ h)
    have same : (r.withQueue rest).ownQueue = r.ownQueue := by
      simp only [Reactor.ownQueue, Reactor.withQueue, queue, List.filter_append, noneOwn,
        List.nil_append]
    refine Quiet.tracks ⟨?_, rfl, rfl⟩
    simp only [Reactor.lane, same]
    rfl

theorem tracks_drain {gs : List (Pending × List Pending)} (hgs : ∀ g ∈ gs, Grouped g) :
    ∀ r : Reactor, r.queue = gs.flatMap (fun g => g.1 :: g.2) →
      Tracks good r (gs.foldl (Reactor.writeGroup env) (r.withQueue [])) := by
  induction gs with
  | nil =>
      intro r queue
      have same : r.withQueue [] = r := by
        rw [show [] = r.queue from queue.symm]
        rfl
      rw [List.foldl_nil, same]
      exact .refl r
  | cons g gs ih =>
      intro r queue
      have first := tracks_writeGroup env safe
        (hgs g List.mem_cons_self) (by simpa using queue)
      refine first.trans ?_
      rw [writeGroup_withQueue, List.foldl_cons, writeGroup_withQueue]
      exact ih (fun g hg => hgs g (List.mem_cons_of_mem _ hg)) _ rfl

theorem tracks_onAsync (r : Reactor) : Tracks good r (r.onAsync env) :=
  tracks_drain env safe (groups_grouped r.queue) r (groups_flatten r.queue).symm

/-! ### Write completions -/

theorem tracks_continueFileSend (r : Reactor) (got : Bytes) :
    Tracks good r (r.continueFileSend env got) := by
  unfold Reactor.continueFileSend
  split
  · exact .refl r
  · rename_i f file
    split
    · exact .refl r
    · rename_i gate
      replace gate : r.conn.closing = false := by simpa using gate
      dsimp only
      generalize got.take (min Reactor.kChunk f.remaining) = chunk
      split
      · refine .step (m := .fileLost) ?_ (safe.plain _ _ rfl) (by simp [Reactor.broadcastEvent,
          Reactor.log, Reactor.setConn]) (by simp [Reactor.broadcastEvent, Reactor.log,
          Reactor.setConn])
        rw [lane_closeConn, (quiet_broadcast ..).lane]
        exact .fileLost
      · refine Tracks.trans ?_ (tracks_afterWrite env safe _ _ _ _)
        by_cases left : f.remaining - chunk.length = 0
        · simp only [left, if_true, decide_true]
          refine .step (m := .fileChunk ⟨.request f.requestId, .last, chunk⟩) ?_ (safe.plain _ _ rfl)
            rfl rfl
          rw [lane_startAnswer]
          exact .fileEnd file gate rfl rfl
        · simp only [left, if_false, decide_false]
          refine .step (m := .fileChunk ⟨.request f.requestId, .chunk, chunk⟩) ?_ (safe.plain _ _ rfl)
            rfl rfl
          rw [lane_startAnswer]
          exact .fileChunk file gate rfl rfl

/-- A finishing write landed, and the parser may go on. -/
theorem tracks_onFinished {r : Reactor} (hwf : r.WF) {w : WriteCtx} {rest : List WriteCtx}
    (finishing : r.lane.finishing = w.keepAlive :: finishingOf rest)
    (kept : r.draining = false → ∀ l m, Move.keeps m = true → good l m) :
    Tracks good r ((r.writeDone w rest).onFinished env w.keepAlive) := by
  have lane₁ : (r.writeDone w rest).requestOver.lane =
      { r.lane with finishing := finishingOf rest, inFlight := none } := rfl
  unfold Reactor.onFinished
  split
  · rename_i shut
    refine .step (m := .landed) ?_ (safe.plain _ _ rfl) (closeConn_reqLoc _) (closeConn_wsConnLoop _)
    rw [lane_closeConn, lane₁]
    exact .landedLast finishing (shut.imp_left fun h => by simpa using h)
  · rename_i go
    obtain ⟨keep, gate⟩ := not_or.mp go
    replace keep : w.keepAlive = true := by simpa using keep
    replace gate : (r.writeDone w rest).conn.closing = false := by simpa using gate
    rw [keep] at finishing
    have landed : Tracks good r (r.writeDone w rest).requestOver.reopen :=
      .step (m := .landed) (.landed finishing gate) (safe.plain _ _ rfl) rfl rfl
    have http : r.conn.ws = false :=
      (hwf.sound.of_landing (finishing ▸ List.mem_cons_self)).2.2.2.2.2
    exact landed.trans (tracks_processConn env safe (hwf.tracks landed) http kept)

theorem tracks_onWrite {r : Reactor} (hwf : r.WF) {w : WriteCtx} {rest : List WriteCtx}
    {ok : Bool} {got : Bytes} (writes : r.conn.writes = w :: rest)
    (kept : r.draining = false → ∀ l m, Move.keeps m = true → good l m) :
    Tracks good r (r.onWrite env w rest ok got) := by
  have lane₁ : (r.writeDone w rest).lane = { r.lane with finishing := finishingOf rest } := rfl
  unfold Reactor.onWrite
  dsimp only
  cases hf : w.finish with
  | true =>
      have finishing : r.lane.finishing = w.keepAlive :: finishingOf rest := by
        simp [Reactor.lane, finishingOf, writes, hf]
      split
      · refine .step (m := .lost) ?_ (safe.plain _ _ rfl) (closeConn_reqLoc _) (closeConn_wsConnLoop _)
        rw [lane_closeConn, lane₁]
        exact .lost finishing
      · simpa using tracks_onFinished env safe hwf finishing kept
  | false =>
      have finishing : r.lane.finishing = finishingOf rest := by
        simp [Reactor.lane, finishingOf, writes, hf]
      have quiet : Tracks good r (r.writeDone w rest) :=
        Quiet.tracks ⟨by rw [lane₁, ← finishing], rfl, rfl⟩
      split
      · exact quiet.trans (tracks_close safe _)
      · simp only [Bool.not_false, if_true]
        split
        · exact quiet.trans (tracks_continueFileSend env safe _ got)
        · exact quiet

/-! ### The timer -/

theorem tracks_sweepWs {r : Reactor} (hw : r.conn.ws = true) :
    Tracks good r (r.sweepWs env) := by
  unfold Reactor.sweepWs
  split
  · exact .refl r
  · split
    · exact (quiet_broadcast ..).tracks.trans (tracks_wsCloseConn env safe hw)
    · split
      · refine Tracks.trans (tracks_writeSession env safe hw ?_) (Quiet.tracks ⟨rfl, rfl, rfl⟩)
        rfl
      · exact .refl r

omit safe in
theorem tracks_timeOut {r : Reactor} (hwf : r.WF) {id : Nat} {kind : ServerEventKind}
    {why : String} (inFlight : r.conn.reqIdInFlight = some id) (http : r.conn.ws = false)
    (hgood : ∀ p, good r.lane (.timeOut p)) : Tracks good r (r.timeOut env id kind why) := by
  unfold Reactor.timeOut
  split
  · exact .refl r
  · rename_i h
    dsimp only
    refine Tracks.trans ?_ (quiet_broadcast ..).tracks
    set r₂ := (r.eraseReq id).setConn { (r.eraseReq id).conn with
      hasDeadline := false, reqIdInFlight := none, streamingBody := false } with hr₂
    have lane₂ : r₂.lane =
        ({ r.lane with inFlight := none, upload := none } : Lane).erase id := by
      have : r₂.lane = { (r.eraseReq id).lane with inFlight := none, upload := none } := rfl
      rw [this, lane_eraseReq]
      rfl
    obtain ⟨loc, found⟩ := Option.ne_none_iff_exists'.mp (by simpa using h)
    have own := hwf.own_of_findReq found (Lane.mem_ids.mpr (.inr (.inl inFlight)))
    obtain ⟨p, origin, part, opens, hlane, hreq, hses, hid⟩ :=
      lane_refuse env (r := r₂) (o := .request id) http
    refine .ofStep (m := .timeOut p) ?_ (hgood p) ?_ hses
    · rw [hlane, lane₂]
      exact .timeOut inFlight (by simp [find_of_own found own]) part origin opens
    · rw [otherReqs_congr (r := r₂) hreq hid]
      exact mem_others_eraseReq (r := r)

theorem tracks_streamIdle {r : Reactor} {id : Nat} (inFlight : r.conn.reqIdInFlight = some id) :
    Tracks good r (r.streamIdle id) := by
  unfold Reactor.streamIdle
  dsimp only
  set r₁ := (r.retireReq id).broadcastEvent .clientError id "stream idle timeout"
  have told : Quiet (r.retireReq id) r₁ := quiet_broadcast ..
  set r₂ := r₁.setConn { r₁.conn with reqIdInFlight := none, responseStarted := false }
  have lane₂ : r₂.lane = { r₁.lane with inFlight := none } := rfl
  have others₂ : r₂.closeConn.otherReqs = (r.retireReq id).otherReqs :=
    (otherReqs_congr (closeConn_reqLoc r₂) (closeConn_id r₂)).trans
      (otherReqs_congr told.reqLoc told.id)
  refine .ofStep (m := .silence) ?_ (safe.plain _ _ rfl) (others₂ ▸ mem_others_retireReq) ?_
  · rw [lane_closeConn, lane₂, told.lane, lane_retireReq]
    exact .silence inFlight
  · exact (closeConn_wsConnLoop r₂).trans (told.sessions.trans (retireReq_wsConnLoop r id))

omit safe in
theorem filter_flip (reqs : List (Nat × ReqLoc)) (id : Nat) (q : Nat → Bool) :
    (reqs.map fun e => if e.1 = id then (e.1, { e.2 with keepAlive := false }) else e).filter
        (fun e => q e.2.connId) =
      (reqs.filter fun e => q e.2.connId).map fun e =>
        if e.1 = id then (e.1, { e.2 with keepAlive := false }) else e := by
  rw [List.filter_map]
  congr 1
  refine List.filter_congr fun e _ => ?_
  simp only [Function.comp]
  split <;> rfl

omit safe in
theorem lane_flipKeepAlive (r : Reactor) (id : Nat) :
    (r.flipKeepAlive id).lane = { r.lane with reqs := r.lane.reqs.map fun e =>
      if e.1 = id then (e.1, { e.2 with keepAlive := false }) else e } := by
  have own := filter_flip r.reqLoc id (fun c => c == r.conn.id)
  simp only [Reactor.lane, Reactor.ownReqs, Reactor.flipKeepAlive, own]
  rfl

theorem tracks_flipKeepAlive (r : Reactor) (id : Nat) :
    Tracks good r (r.flipKeepAlive id) := by
  have others := filter_flip r.reqLoc id (fun c => c != r.conn.id)
  refine .ofStep (m := .flip) (lane_flipKeepAlive r id ▸ .flip) (safe.plain _ _ rfl)
    (fun e he => ?_) rfl
  simp only [Reactor.otherReqs, Reactor.flipKeepAlive, others] at he
  obtain ⟨e', he', rfl⟩ := List.mem_map.mp he
  have key : (if e'.1 = id then (e'.1, { e'.2 with keepAlive := false }) else e').1 = e'.1 := by
    split <;> rfl
  rw [key]
  exact List.mem_map_of_mem he'

/-- The age check changes no mark and no request's id. -/
theorem tracks_ageOut (r : Reactor) :
    Tracks good r r.ageOut ∧ r.ageOut.lane.marks = r.lane.marks ∧
      r.ageOut.lane.reqs.map Prod.fst = r.lane.reqs.map Prod.fst ∧
      r.ageOut.conn.reqIdInFlight = r.conn.reqIdInFlight ∧
      r.ageOut.conn.ws = r.conn.ws ∧ r.ageOut.conn.closing = r.conn.closing ∧
      r.ageOut.overdue env = r.overdue env := by
  unfold Reactor.ageOut
  dsimp only
  have aged : Tracks good r (r.setConn { r.conn with ageExpired := true }) :=
    Quiet.tracks ⟨rfl, rfl, rfl⟩
  split
  · split
    · refine ⟨aged.trans (tracks_flipKeepAlive safe _ _), rfl, ?_, rfl, rfl, rfl, rfl⟩
      rw [lane_flipKeepAlive]
      exact map_fst_flip _ _
    · exact ⟨aged, rfl, rfl, rfl, rfl, rfl, rfl⟩
  · exact ⟨aged, rfl, rfl, rfl, rfl, rfl, rfl⟩

theorem tracks_sweepBusy {r : Reactor} (hwf : r.WF) (http : r.conn.ws = false)
    (hgood : r.overdue env = true → ∀ p, good r.lane (.timeOut p)) :
    Tracks good r (r.sweepBusy env) := by
  unfold Reactor.sweepBusy
  split
  · exact .refl r
  · rename_i id inFlight
    split
    · rename_i late
      exact tracks_timeOut env hwf inFlight http (hgood (by simp [Reactor.overdue, late]))
    · split
      · rename_i stalled
        exact tracks_timeOut env hwf inFlight http (hgood (by simp [Reactor.overdue, stalled]))
      · split
        · exact tracks_streamIdle safe inFlight
        · exact .refl r

theorem tracks_sweepIdle {r : Reactor} (http : r.conn.ws = false) (gate : r.lane.open) :
    Tracks good r (r.sweepIdle env) := by
  unfold Reactor.sweepIdle
  split
  · split
    · exact (quiet_broadcast ..).tracks.trans (tracks_refuse env safe http gate)
    · exact .refl r
  · split
    · exact (quiet_broadcast ..).tracks.trans (tracks_close safe _)
    · split
      · exact tracks_close safe r
      · split
        · exact tracks_close safe r
        · exact .refl r

theorem tracks_sweepHttp {r : Reactor} (hwf : r.WF) (http : r.conn.ws = false)
    (gate : r.conn.closing = false)
    (hgood : r.overdue env = true → ∀ p, good r.lane (.timeOut p)) :
    Tracks good r (r.sweepHttp env) := by
  unfold Reactor.sweepHttp
  split
  · exact tracks_sweepBusy env safe hwf http hgood
  · rename_i busy
    exact tracks_sweepIdle env safe http ⟨(by simpa using busy : r.conn.busy = false), gate⟩

theorem tracks_onSweep {r : Reactor} (hwf : r.WF)
    (hgood : ∀ l p, r.overdue env = true → l.closing = false → l.marks = r.lane.marks →
      l.reqs.map Prod.fst = r.lane.reqs.map Prod.fst → l.inFlight = r.lane.inFlight →
      good l (.timeOut p)) :
    Tracks good r (r.onSweep env) := by
  unfold Reactor.onSweep
  split
  · exact .refl r
  · rename_i gate
    replace gate : r.conn.closing = false := by simpa using gate
    split
    · exact (quiet_broadcast ..).tracks.trans (tracks_close safe _)
    · dsimp only
      split
      · rename_i hw
        split
        · refine Tracks.trans ?_ (tracks_wsCloseConn env safe ?_)
          · exact Quiet.tracks ⟨rfl, rfl, rfl⟩
          · exact hw
        · exact tracks_sweepWs env safe hw
      · rename_i http
        replace http : r.conn.ws = false := by simpa using http
        split
        · obtain ⟨aged, marks, reqs, inFlight, ws, closing, late⟩ := tracks_ageOut env safe r
          exact aged.trans (tracks_sweepHttp env safe (hwf.tracks aged) (ws.trans http)
            (closing.trans gate) fun h p =>
              hgood _ p (late ▸ h) (closing.trans gate) marks reqs inFlight)
        · exact tracks_sweepHttp env safe hwf http gate fun h p => hgood _ p h gate rfl rfl rfl

/-! ### Reads and the close callback -/

omit safe in
theorem tracks_refuseBusyBuffer {r : Reactor} (full : r.busyBufferFull env = true)
    (hgood : ∀ p, good r.lane (.guard p)) : Tracks good r (r.refuseBusyBuffer env) := by
  simp only [Reactor.busyBufferFull, Bool.and_eq_true, Bool.not_eq_true'] at full
  obtain ⟨⟨⟨⟨busy, -⟩, http⟩, -⟩, -⟩ := full
  unfold Reactor.refuseBusyBuffer
  set r₁ := (r.broadcastEvent .clientError r.conn.id
    "pipelined bytes exceed the buffer cap").setConn { r.conn with buf := [] }
  have told : Quiet r r₁ := (quiet_broadcast ..).trans ⟨rfl, rfl, rfl⟩
  obtain ⟨p, origin, part, opens, hlane, hreq, hses, hid⟩ :=
    lane_refuse env (r := r₁) (o := .guard) http
  refine .step (m := .guard p) ?_ (hgood p) (hreq.trans told.reqLoc) (hses.trans told.sessions)
  rw [hlane, told.lane]
  exact .guard busy http part origin opens

theorem tracks_readCb {r : Reactor} (hwf : r.WF) {data : Bytes}
    (causes : Causes env good r (.read data))
    (kept : r.draining = false → ∀ l m, Move.keeps m = true → good l m) :
    Tracks good r (r.readCb env data) := by
  have got : Quiet r (r.received data) := ⟨rfl, rfl, rfl⟩
  unfold Reactor.readCb
  dsimp only
  split
  · rename_i full
    refine got.tracks.trans (tracks_refuseBusyBuffer env full fun p => ?_)
    exact causes.guard data p rfl full
  · split
    · rename_i streaming
      unfold Reactor.emitStream
      split
      · rename_i chunked
        obtain goes | ⟨beyond, r₁, quiet, -, heq⟩ :=
          emitStreamChunked_cases env safe (r.received data)
        · exact got.tracks.trans goes
        · have quiet' : Quiet r r₁ := got.trans quiet
          have streaming₁ : r₁.conn.streamingBody = true := by
            have upload := congrArg Lane.upload quiet.lane
            simp only [Reactor.lane, uploadOf, streaming, if_true] at upload
            by_contra h
            simp [h] at upload
          have http : r.conn.ws = false := by
            by_contra hw
            have upload := hwf.sound.upload ((Bool.not_eq_false _).mp hw)
            simp [Reactor.lane, uploadOf, show r.conn.streamingBody = true from streaming] at upload
          rw [heq]
          refine quiet'.tracks.trans (tracks_abort env (quiet'.ws.trans http) streaming₁ fun p => ?_)
          rw [quiet'.lane]
          refine causes.abort data p rfl ?_
          simp only [Reactor.uploadOverCap, Bool.and_eq_true, beq_iff_eq]
          exact ⟨⟨streaming, chunked⟩, beyond⟩
      · exact got.tracks.trans (tracks_emitStreamBytes safe _)
    · split
      · rename_i hw
        exact got.tracks.trans (tracks_wsProcess env safe hw)
      · rename_i http
        have got' : Tracks good r _ := got.tracks
        exact got'.trans (tracks_processConn env safe (hwf.tracks got')
          (eq_false_of_ne_true http) kept)

theorem tracks_readEnd {r : Reactor} (gate : r.conn.closing = false) :
    Tracks good r (r.readEnd env) := by
  have ended : Quiet r (r.setConn { r.conn with eof := true }) := ⟨rfl, rfl, rfl⟩
  unfold Reactor.readEnd
  dsimp only
  split
  · rename_i h
    obtain ⟨busy, http, -⟩ := h
    exact ended.tracks.trans (tracks_refuse env safe (eq_false_of_ne_true http)
      ⟨eq_false_of_ne_true busy, gate⟩)
  · exact ended.tracks.trans (tracks_close safe _)

theorem tracks_onCloseConn {r : Reactor} (shut : r.conn.closing = true) :
    Tracks good r r.onCloseConn := by
  unfold Reactor.onCloseConn
  dsimp only
  split
  · rename_i hw
    refine .ofSession (m := .leave) hw ?_ (safe.plain _ _ rfl) rfl
    convert Lane.Step.leaveSession (l := r.lane) hw shut using 1
    simp [Reactor.lane, Ev.marks, Reactor.ownReqs, Reactor.ownQueue]
  · rename_i hw
    refine .ofStep (m := .leave) ?_ (safe.plain _ _ rfl) ?_ rfl
    · convert Lane.Step.leave (l := r.lane) (eq_false_of_ne_true hw) shut using 1
      simp [Reactor.lane, Reactor.ownReqs, Reactor.ownQueue, List.filter_filter, List.flatMap_map,
        Ev.marks]
    · intro e he
      simp only [Reactor.otherReqs, List.filter_filter, Bool.and_self] at he
      exact List.mem_map_of_mem he

/-! ### Sessions and other connections -/

theorem tracks_sessionPush {r : Reactor} (hw : r.conn.ws = true) {e : Pending}
    (own : e.connId = r.conn.id) (part : e.piece.part = .raw) (file : e.file = none)
    (closes : e.finish = true → e.keepAlive = false) : Tracks good r (r.pushWrite e) := by
  refine .ofSession (m := .sessionPush e) hw ?_ (safe.plain _ _ rfl) rfl
  rw [lane_pushWrite own]
  exact .sessionPush hw part file closes

theorem tracks_wsSend {r : Reactor} (hwf : r.WF) {payload : Bytes} {binary compressed : Bool} :
    Tracks good r (r.wsSend payload binary compressed) := by
  unfold Reactor.wsSend
  split
  · exact .refl r
  · rename_i h
    have hw := hwf.session (by simpa using (not_or.mp h).2)
    exact tracks_sessionPush safe hw rfl rfl rfl (by simp)

theorem tracks_wsClose {r : Reactor} (hwf : r.WF) {code : Nat} :
    Tracks good r (r.wsClose code) := by
  unfold Reactor.wsClose
  split
  · exact .refl r
  · rename_i h
    have hw := hwf.session (by simpa using (not_or.mp h).2)
    dsimp only
    set r₁ : Reactor := { r with wsConnLoop := r.wsConnLoop.filter (· ≠ r.conn.id) }
    have left : Tracks good r r₁ :=
      ⟨.refl, fun _ he => List.mem_map_of_mem he, rfl, fun _ _ => hw⟩
    exact left.trans (tracks_sessionPush safe (r := r₁) hw rfl rfl rfl (fun _ => rfl))

omit safe in
theorem quiet_tlsRawWrite (r : Reactor) (cipher : Bytes) : Quiet r (r.tlsRawWrite cipher) := by
  unfold Reactor.tlsRawWrite
  split
  · exact ⟨rfl, rfl, rfl⟩
  · refine ⟨?_, rfl, rfl⟩
    simp [Reactor.lane, finishingOf, Ev.marks, Reactor.ownReqs, Reactor.ownQueue]

/-! ### One step -/

omit safe in
/-- Another connection's request joins the table under a fresh id. -/
theorem otherRequest_lane {r r' : Reactor} (hwf : r.WF) {loc : ReqLoc}
    (other : loc.connId ≠ r.conn.id)
    (heq : { r with nextId := r.nextId + 1, reqLoc := r.reqLoc ++ [(r.nextId, loc)] } = r') :
    r'.lane = { r.lane with nextId := r.nextId + 1 } ∧ r'.WF := by
  have lane : r'.lane = { r.lane with nextId := r.nextId + 1 } := by
    simp [← heq, Reactor.lane, Reactor.ownReqs, Reactor.ownQueue, other]
  have ids : r'.lane.ids = r.lane.ids := by rw [lane]; rfl
  have next : r'.nextId = r.nextId + 1 := congrArg Lane.nextId lane
  have others : r'.otherReqs = r.otherReqs ++ [(r.nextId, loc)] := by
    simp [← heq, Reactor.otherReqs, other]
  refine ⟨lane, ⟨fun e he => ?_, fun i hi => ?_, ?_, ?_⟩⟩
  · rw [others] at he
    rw [ids, next]
    rcases List.mem_append.mp he with he | he
    · exact ⟨(hwf.others e he).1.trans (Nat.lt_succ_self _), (hwf.others e he).2⟩
    · obtain rfl := List.mem_singleton.mp he
      exact ⟨Nat.lt_succ_self _, fun held => absurd (hwf.own _ held) (lt_irrefl _)⟩
  · rw [ids] at hi
    rw [next]
    exact (hwf.own i hi).trans (Nat.lt_succ_self _)
  · rw [← heq]
    exact hwf.session
  · rw [lane]
    exact Lane.Step.skipId.sound hwf.sound

/-- Every step of a well-formed reactor is a run of admitted lane moves. -/
theorem step_lane {r r' : Reactor} {a : Act} (hwf : r.WF) (causes : Causes env good r a)
    (kept : r.draining = false → ∀ l m, Move.keeps m = true → good l m)
    (hstep : step env r a = some r') :
    Reaches Lane.Step good r.lane r'.lane ∧ r'.WF := by
  have done : Tracks good r r' → Reaches Lane.Step good r.lane r'.lane ∧ r'.WF :=
    fun h => ⟨h.lane, hwf.tracks h⟩
  cases a with
  | read data =>
      simp only [step, Option.ite_none_right_eq_some, Option.some.injEq] at hstep
      obtain ⟨-, rfl⟩ := hstep
      exact done (tracks_readCb env safe hwf causes kept)
  | readEnd =>
      simp only [step, Option.ite_none_right_eq_some, Option.some.injEq] at hstep
      obtain ⟨reading, rfl⟩ := hstep
      exact done (tracks_readEnd env safe (eq_false_of_ne_true reading.1))
  | written ok got =>
      simp only [step] at hstep
      split at hstep
      · cases hstep
      · rename_i w rest writes
        simp only [Option.ite_none_left_eq_some, Option.some.injEq] at hstep
        obtain ⟨-, rfl⟩ := hstep
        exact done (tracks_onWrite env safe hwf writes kept)
  | async =>
      cases hstep
      exact done (tracks_onAsync env safe r)
  | sweep =>
      simp only [step, Option.ite_none_left_eq_some, Option.some.injEq] at hstep
      obtain ⟨-, rfl⟩ := hstep
      exact done (tracks_onSweep env safe hwf fun l p => causes.timeOut l p rfl)
  | closed =>
      simp only [step, Option.ite_none_right_eq_some, Option.some.injEq] at hstep
      obtain ⟨⟨shut, -⟩, rfl⟩ := hstep
      exact done (tracks_onCloseConn safe shut)
  | respond id status headers body =>
      cases hstep
      exact done (tracks_respondWith env hwf fun e => causes.opening id e (by simp [Act.opens]))
  | respondFile id status headers size offset length =>
      cases hstep
      exact done (tracks_respondFile env hwf fun e => causes.opening id e (by simp [Act.opens]))
  | startStream id status headers =>
      cases hstep
      exact done (tracks_startStream env hwf fun e => causes.opening id e (by simp [Act.opens]))
  | sendStreamChunk id bytes last =>
      cases hstep
      exact done (tracks_sendStreamChunk hwf fun e => causes.chunk id bytes last e rfl)
  | wsSend payload binary compressed =>
      cases hstep
      exact done (tracks_wsSend safe hwf)
  | wsClose code =>
      cases hstep
      exact done (tracks_wsClose safe hwf)
  | tick ms | beginDrain | attach emitter =>
      cases hstep
      exact done (Quiet.tracks ⟨rfl, rfl, rfl⟩)
  | tlsFlight cipher =>
      simp only [step, Option.ite_none_right_eq_some, Option.some.injEq] at hstep
      obtain ⟨-, rfl⟩ := hstep
      exact done (quiet_tlsRawWrite r cipher).tracks
  | otherRequest loc =>
      simp only [step, Option.ite_none_left_eq_some, Option.some.injEq] at hstep
      obtain ⟨other, heq⟩ := hstep
      obtain ⟨lane, wf⟩ := otherRequest_lane hwf other heq
      exact ⟨lane ▸ .single (safe.plain _ .skipId rfl) .skipId, wf⟩
  | otherRetire id =>
      simp only [step] at hstep
      split at hstep
      · rename_i loc found
        simp only [Option.ite_none_left_eq_some, Option.some.injEq] at hstep
        obtain ⟨other, rfl⟩ := hstep
        refine done ⟨?_, mem_others_eraseReq, rfl, fun h => h⟩
        rw [lane_eraseReq, hwf.erase_other found other]
        exact .refl
      · cases hstep
  | otherPush entry =>
      simp only [step, Option.ite_none_left_eq_some, Option.some.injEq] at hstep
      obtain ⟨other, rfl⟩ := hstep
      exact done (Quiet.tracks ⟨lane_pushWrite_other other, rfl, rfl⟩)
  | newId =>
      cases hstep
      exact done (.step (m := .skipId) .skipId (safe.plain _ _ rfl) rfl rfl)

/-- Every run of a well-formed reactor is a run of admitted lane moves, once each of
its steps has the causes that `good` asks for. -/
theorem run_lane {ok : Reactor → Act → Prop} {r t : Reactor} (hwf : r.WF)
    (causes : ∀ r a r', ok r a → step env r a = some r' → Causes env good r a)
    (kept : ∀ l m, Move.keeps m = true → good l m)
    (run : Reaches (stepOf (step env)) ok r t) :
    Reaches Lane.Step good r.lane t.lane ∧ t.WF := by
  have keeps : ∀ r a r', r.WF → ok r a → stepOf (step env) r a r' → r'.WF :=
    fun r a r' hwf hok hstep => (step_lane env safe hwf (causes r a r' hok hstep) (fun _ => kept) hstep).2
  refine ⟨run.map hwf keeps fun r a r' hwf hok hstep => ?_, run.invariant hwf keeps⟩
  exact (step_lane env safe hwf (causes r a r' hok hstep) (fun _ => kept) hstep).1

end Moves

/-- Every step is a run of moves, whatever their causes. -/
theorem step_moves {r r' : Reactor} {a : Act} (hwf : r.WF) (hstep : step env r a = some r') :
    Reaches Lane.Step anyStep r.lane r'.lane ∧ r'.WF :=
  step_lane env ⟨fun _ _ _ => trivial, fun _ _ _ => trivial⟩ hwf
    ⟨fun _ _ _ _ => trivial, fun _ _ _ _ => trivial, fun _ _ _ _ _ _ _ _ => trivial,
      fun _ _ _ _ => trivial, fun _ _ _ _ _ _ => trivial⟩ (fun _ _ _ _ => trivial) hstep

/-- Well-formedness needs no cause. -/
theorem Reactor.WF.step {r r' : Reactor} {a : Act} (hwf : r.WF) (hstep : step env r a = some r') :
    r'.WF :=
  (step_moves env hwf hstep).2

/-! ### A fresh connection -/

/-- The lane of a connection just accepted. -/
theorem Fresh.lane {r : Reactor} (h : Fresh r) :
    r.lane = ⟨r.conn.id, false, false, false, false, [], none, none, none, [], [], r.nextId,
      []⟩ := by
  have reqs : r.ownReqs = [] :=
    List.filter_eq_nil_iff.mpr fun e he => by simpa using (h.reqLoc e he).1
  have queue : r.ownQueue = [] :=
    List.filter_eq_nil_iff.mpr fun e he => by simpa using h.queue e he
  have conn := h.conn
  unfold Reactor.lane
  rw [reqs, queue, h.live, h.trace, conn]
  rfl

theorem Fresh.wf {r : Reactor} (h : Fresh r) : r.WF := by
  have ids : r.lane.ids = [] := by simp [h.lane, Lane.ids]
  refine ⟨fun e he => ⟨(h.reqLoc e (List.mem_filter.mp he).1).2, by simp [ids]⟩, by simp [ids],
    fun mem => absurd mem h.sessions, ?_⟩
  exact .of_paid (by simp [h.lane]) (by simp [h.lane]) (by simp [h.lane]) (by simp [h.lane])
    (by simp [h.lane])

end NitroServer.Engine
