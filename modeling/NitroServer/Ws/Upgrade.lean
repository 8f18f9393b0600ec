/-
Before the session.

A connection becomes a session in `wsOpen`, and nowhere else; until then it has written
no frame and has none in the inbox.

* `enters_step` — a step keeps a connection with HTTP, or ends in a session with nothing said.
* `unspoken_step` — after a step from HTTP there is no frame, also when it upgraded.
-/

import NitroServer.Ws.Outbound
import NitroServer.Ws.Session
import NitroServer.Lane.Wakeup

namespace NitroServer.Engine

open NitroServer.Lib Ws

variable {env : Env}

namespace Reactor

variable {r r' : Reactor}

/-! ### What keeps a connection what it is -/

@[simp] theorem closeConn_ws (r : Reactor) : r.closeConn.conn.ws = r.conn.ws :=
  adds_closeConn.ws

@[simp] theorem writeAnswer_ws (r : Reactor) (ps : List Piece) (ka fin : Bool) :
    (r.writeAnswer env ps ka fin).conn.ws = r.conn.ws := by
  unfold writeAnswer
  dsimp only
  split
  · exact (adds_wsCloseConn 1009).1.ws
  · split
    · exact closeConn_ws _
    · rfl

@[simp] theorem refuse_ws (r : Reactor) (origin : Origin) (status : Nat) :
    (r.refuse env origin status).conn.ws = r.conn.ws :=
  writeAnswer_ws ..

@[simp] theorem refuseText_ws (r : Reactor) (status : Nat) (msg : String) (extra : List Header) :
    (r.refuseText env status msg extra).conn.ws = r.conn.ws :=
  writeAnswer_ws ..

@[simp] theorem emitDecoded_ws (r : Reactor) (out : Bytes) :
    (r.emitDecoded out).conn.ws = r.conn.ws := by
  unfold emitDecoded
  split <;> rfl

@[simp] theorem takeStreamBytes_ws (r : Reactor) : r.takeStreamBytes.conn.ws = r.conn.ws := by
  unfold takeStreamBytes
  dsimp only
  split <;> rfl

theorem abortStreamTooLarge_ws (r : Reactor) : (r.abortStreamTooLarge env).conn.ws = r.conn.ws := by
  simp [abortStreamTooLarge, emitTo, log, setConn]

theorem emitStream_ws (r : Reactor) : (r.emitStream env).conn.ws = r.conn.ws := by
  unfold emitStream
  split
  · unfold emitStreamChunked
    obtain ⟨stop, s⟩ := scanChunks r.conn.streamMaxBody (r.conn.buf.length + 1) r.chunkScan
    dsimp only
    cases stop with
    | tooLarge => exact abortStreamTooLarge_ws _
    | malformed => exact closeConn_ws _
    | more => exact emitDecoded_ws ..
    | done => exact emitDecoded_ws ..
  · unfold emitStreamBytes
    split <;> exact takeStreamBytes_ws r

theorem continueFileSend_ws (r : Reactor) (got : Bytes) :
    (r.continueFileSend env got).conn.ws = r.conn.ws := by
  unfold continueFileSend
  split
  · rfl
  · split
    · rfl
    · dsimp only
      split
      · exact closeConn_ws _
      · exact writeAnswer_ws ..

@[simp] theorem writeGroup_ws (r : Reactor) (g : Pending × List Pending) :
    (r.writeGroup env g).conn.ws = r.conn.ws := by
  unfold writeGroup
  split
  · rfl
  · split
    · exact writeAnswer_ws ..
    · exact writeAnswer_ws ..

theorem writeGroups_ws (gs : List (Pending × List Pending)) (r : Reactor) :
    (gs.foldl (writeGroup env) r).conn.ws = r.conn.ws := by
  induction gs generalizing r with
  | nil => rfl
  | cons g gs ih => rw [List.foldl_cons, ih, writeGroup_ws]

theorem sweepHttp_ws (r : Reactor) : (r.sweepHttp env).conn.ws = r.conn.ws := by
  have timeOut : ∀ id kind why, (r.timeOut env id kind why).conn.ws = r.conn.ws := by
    intro id kind why
    unfold timeOut
    split
    · rfl
    · exact refuse_ws ..
  unfold sweepHttp
  split
  · unfold sweepBusy
    split
    · rfl
    · split
      · exact timeOut ..
      · split
        · exact timeOut ..
        · split
          · simp [streamIdle, broadcastEvent, log, setConn]
          · rfl
  · unfold sweepIdle
    repeat' split
    all_goals first | rfl | exact refuse_ws .. | exact closeConn_ws _

theorem onSweep_ws (r : Reactor) : (r.onSweep env).conn.ws = r.conn.ws := by
  have aged : r.ageOut.conn.ws = r.conn.ws := by
    unfold ageOut
    dsimp only
    split
    · split <;> rfl
    · rfl
  unfold onSweep
  split
  · rfl
  · split
    · exact closeConn_ws _
    · dsimp only
      split
      · split
        · exact (adds_wsCloseConn 1001).1.ws
        · unfold sweepWs
          split
          · rfl
          · split
            · exact (adds_wsCloseConn 1001).1.ws
            · split
              · exact writeAnswer_ws ..
              · rfl
      · split
        · rw [sweepHttp_ws, aged]
        · exact sweepHttp_ws r

/-! ### The handshake -/

/-- No frame is written, and the inbox stays. -/
structure Still (r r' : Reactor) : Prop where
  frames : r'.frames = r.frames
  queue : r'.ownQueue = r.ownQueue
  id : r'.conn.id = r.conn.id

theorem Adds.still (h : Adds r r' []) : Still r r' :=
  ⟨h.frames.trans (List.append_nil _), h.queue, h.id⟩

theorem Still.trans {r'' : Reactor} (h : Still r r') (h' : Still r' r'') : Still r r'' :=
  ⟨h'.frames.trans h.frames, h'.queue.trans h.queue, h'.id.trans h.id⟩

/-- A response is no frame. -/
theorem still_writeAnswer (http : r.conn.ws = false) {p : Piece} (part : p.isFrame = false)
    (ka fin : Bool) : Still r (r.writeAnswer env [p] ka fin) := by
  have started : Adds r (r.startAnswer env [p] ka fin) [] := by
    have adds : Adds r (r.startAnswer env [p] ka fin) _ := adds_startAnswer [p] ka fin
    rwa [List.filter_cons_of_neg (by simp [part]), List.filter_nil] at adds
  have session : (r.startAnswer env [p] ka fin).conn.ws = false := http
  unfold writeAnswer
  dsimp only
  rw [if_neg (by simp [session])]
  split
  · exact ((started.trans (adds_log rfl)).trans adds_closeConn).still
  · exact started.still

/-- An upgrade leaves the parser with an empty buffer: there is nothing to process. -/
theorem still_wsOpen (http : r.conn.ws = false) (empty : r.conn.buf = []) (head : ParsedHead)
    (route : RouteEntry) (params : List RouteParam) (path query key : Bytes)
    (protocol : Option Bytes) :
    Still r (r.wsOpen env head route params path query key protocol) := by
  unfold wsOpen
  dsimp only
  set deflate := env.cfg.wsCompression &&
    (uvFindHeader head.headers "sec-websocket-extensions").any fun e =>
      (findSub (ascii "permessage-deflate") e.value).isSome
  set r₁ := (r.setConn { r.conn with deflate := deflate }).log [.upgrade]
  set p : Piece := ⟨.session, .whole, wsShake key deflate protocol⟩
  have before : Still r r₁ := by
    have first : Adds r (r.setConn { r.conn with deflate := deflate }) [] := adds_setConn rfl rfl
    exact (first.trans (adds_log rfl)).still
  have http₁ : r₁.conn.ws = false := http
  have shake : Still r₁ (r₁.writeAnswer env [p] true false) :=
    still_writeAnswer http₁ (show p.isFrame = false from rfl) true false
  set r₂ := r₁.writeAnswer env [p] true false
  have buf : r₂.conn.buf = [] := (writeAnswer_idle http₁ [p] true false).1.trans empty
  have enter : Still r₂ r₂.wsEnter := ⟨rfl, rfl, rfl⟩
  set r₃ := r₂.wsEnter.emitTo r₂.wsEnter.emitter fun sink =>
    [.emitHead sink ⟨r₂.wsEnter.conn.id, head.method, head.customMethod, path, query, head.headers,
      0, false, true, route.pattern, params⟩]
  have told : Still r₂.wsEnter r₃ := (adds_emitTo fun _ => rfl).still
  have idle : r₃.wsProcess env = r₃ := by
    have none : r₃.wsFrame env = (r₃, false) := by
      rw [wsFrame, show r₃.conn.buf = [] from buf]
    unfold wsProcess wsFrames
    rw [none]
    split <;> rfl
  rw [idle]
  exact ((before.trans shake).trans enter).trans told

/-- What the parser makes of a connection: what it was, or a session with nothing said. -/
def Enters (r r' : Reactor) : Prop := r'.conn.ws = r.conn.ws ∨ Still r r'

theorem enters_wsHandshake (http : r.conn.ws = false) (empty : r.conn.buf = [])
    (head : ParsedHead) (route : RouteEntry) (params : List RouteParam) (path query : Bytes) :
    Enters r (r.wsHandshake env head route params path query) := by
  unfold wsHandshake
  split
  · exact .inl (refuse_ws ..)
  split
  · exact .inl (refuse_ws ..)
  split
  · exact .inl (refuseText_ws ..)
  split
  · exact .inr (still_wsOpen http empty ..)
  split
  · exact .inr (still_wsOpen http empty ..)
  split
  · exact .inr (still_wsOpen http empty ..)
  split
  · exact .inl (refuse_ws ..)
  · exact .inr (still_wsOpen http empty ..)

theorem enters_answerRequest (http : r.conn.ws = false) (q : Request) (ka : Bool) (body : Bytes) :
    Enters r (r.answerRequest env q ka body).1 := by
  unfold answerRequest
  dsimp only
  split
  · split
    · exact .inl (refuseText_ws ..)
    · exact .inl (writeAnswer_ws ..)
  · split
    · split
      · exact .inl (refuseText_ws ..)
      · split
        · exact .inl (refuse_ws ..)
        · rename_i none
          simp only [ne_eq, not_or, not_not] at none
          exact enters_wsHandshake http none.2 ..
    · split
      · exact .inl (refuseText_ws ..)
      · split
        · exact .inl (writeAnswer_ws ..)
        · split
          · exact .inl (refuseText_ws ..)
          · exact .inl rfl

theorem dispatchStream_ws (r : Reactor) (q : Request) (route : RouteEntry)
    (params : List RouteParam) (bodyStart : Nat) :
    (r.dispatchStream env q route params bodyStart).conn.ws = r.conn.ws := by
  unfold dispatchStream
  split
  · exact refuseText_ws ..
  · exact emitStream_ws _

theorem still_sendContinue (r : Reactor) (q : Request) :
    Still r (r.sendContinue env q) ∧ (r.sendContinue env q).conn.ws = r.conn.ws := by
  unfold sendContinue
  split
  · split
    · unfold writeRaw
      split
      · exact ⟨⟨rfl, rfl, rfl⟩, rfl⟩
      · refine ⟨⟨?_, rfl, rfl⟩, rfl⟩
        simp [Reactor.frames, issueWrite, setConn, Ev.frames, Piece.isFrame]
    · exact ⟨⟨rfl, rfl, rfl⟩, rfl⟩
  · exact ⟨⟨rfl, rfl, rfl⟩, rfl⟩

theorem Enters.after {r'' : Reactor} (h' : Enters r' r'') (h : Still r r')
    (ws : r'.conn.ws = r.conn.ws) : Enters r r'' :=
  h'.imp (fun same => same.trans ws) fun still => h.trans still

theorem enters_processRequest (http : r.conn.ws = false) (q : Request) (bodyStart : Nat) :
    Enters r (r.processRequest env q bodyStart).1 := by
  unfold processRequest
  split
  · exact .inl (refuse_ws ..)
  · obtain ⟨still, ws⟩ := still_sendContinue r q
    dsimp only
    split
    · exact .inl ((dispatchStream_ws ..).trans ws)
    · split
      · exact .inl ws
      · exact .inl ((refuse_ws ..).trans ws)
      · refine Enters.after (enters_answerRequest ?_ ..) ?_ ?_
        · exact ws.trans http
        · exact still.trans ⟨rfl, rfl, rfl⟩
        · exact ws

theorem enters_processConn (http : r.conn.ws = false) : Enters r (r.processConn env) := by
  unfold processConn
  split
  · exact .inl rfl
  split
  · exact .inl rfl
  split
  · split <;> exact .inl rfl
  rw [processLoop_succ]
  split
  · exact .inl rfl
  · unfold processHead
    split
    · unfold awaitHead
      repeat' split
      all_goals first | exact .inl rfl | exact .inl (closeConn_ws _)
    · dsimp only
      split
      · exact .inl (refuse_ws ..)
      · split
        · exact .inl (refuse_ws ..)
        · refine Enters.after (enters_processRequest ?_ ..) ⟨rfl, rfl, rfl⟩ rfl
          exact http

end Reactor

/-! ### Steps from HTTP -/

open Reactor in
/-- A step from HTTP keeps to HTTP, or ends in a session that has said nothing. -/
theorem enters_step {r r' : Reactor} {a : Act} (http : r.conn.ws = false)
    (hstep : step env r a = some r') : Enters r r' := by
  cases a with
  | read data =>
      simp only [step, Option.ite_none_right_eq_some, Option.some.injEq] at hstep
      obtain ⟨-, rfl⟩ := hstep
      unfold readCb
      dsimp only
      have http' : (r.received data).conn.ws = false := http
      split
      · exact .inl (refuse_ws ..)
      · split
        · exact .inl (emitStream_ws _)
        · rw [if_neg (by simp [http'])]
          exact (enters_processConn http').after ⟨rfl, rfl, rfl⟩ rfl
  | readEnd =>
      simp only [step, Option.ite_none_right_eq_some, Option.some.injEq] at hstep
      obtain ⟨-, rfl⟩ := hstep
      unfold Reactor.readEnd
      dsimp only
      split
      · exact .inl (refuse_ws ..)
      · exact .inl (closeConn_ws _)
  | written ok got =>
      simp only [step] at hstep
      split at hstep
      · cases hstep
      · rename_i w rest writes
        simp only [Option.ite_none_left_eq_some, Option.some.injEq] at hstep
        obtain ⟨-, rfl⟩ := hstep
        unfold onWrite
        dsimp only
        split
        · exact .inl (closeConn_ws _)
        · split
          · split
            · exact .inl (continueFileSend_ws ..)
            · exact .inl rfl
          · unfold onFinished
            split
            · exact .inl (closeConn_ws _)
            · refine Enters.after (enters_processConn ?_) ⟨rfl, rfl, rfl⟩ rfl
              exact http
  | async =>
      cases hstep
      exact .inl (writeGroups_ws _ _)
  | sweep =>
      simp only [step, Option.ite_none_left_eq_some, Option.some.injEq] at hstep
      obtain ⟨-, rfl⟩ := hstep
      exact .inl (onSweep_ws r)
  | closed =>
      simp only [step, Option.ite_none_right_eq_some, Option.some.injEq] at hstep
      obtain ⟨-, rfl⟩ := hstep
      unfold onCloseConn
      dsimp only
      split <;> exact .inl rfl
  | respond id status headers body =>
      cases hstep
      exact .inl (congrArg Conn.ws (respondWith_conn ..))
  | respondFile id status headers size offset length =>
      cases hstep
      exact .inl (congrArg Conn.ws (respondFile_conn ..))
  | startStream id status headers =>
      cases hstep
      exact .inl (congrArg Conn.ws (startStream_conn ..))
  | sendStreamChunk id bytes last =>
      cases hstep
      exact .inl (congrArg Conn.ws (sendStreamChunk_conn ..))
  | wsSend payload binary compressed =>
      cases hstep
      unfold Reactor.wsSend
      split <;> exact .inl rfl
  | wsClose code =>
      cases hstep
      unfold Reactor.wsClose
      split <;> exact .inl rfl
  | tick ms | beginDrain | attach emitter | newId =>
      cases hstep
      exact .inl rfl
  | tlsFlight cipher =>
      simp only [step, Option.ite_none_right_eq_some, Option.some.injEq] at hstep
      obtain ⟨-, rfl⟩ := hstep
      unfold tlsRawWrite
      split <;> exact .inl rfl
  | otherRequest loc | otherPush entry =>
      simp only [step, Option.ite_none_left_eq_some, Option.some.injEq] at hstep
      obtain ⟨-, rfl⟩ := hstep
      exact .inl rfl
  | otherRetire id =>
      simp only [step] at hstep
      split at hstep
      · simp only [Option.ite_none_left_eq_some, Option.some.injEq] at hstep
        obtain ⟨-, rfl⟩ := hstep
        exact .inl rfl
      · cases hstep

/-! ### No frame before the upgrade -/

/-- The lane has written no frame, and none is in its inbox. -/
structure Lane.Unspoken (l : Lane) : Prop where
  marks : ∀ p, .piece p ∈ l.marks → p.isFrame = false
  queue : ∀ e ∈ l.queue, e.piece.isFrame = false

theorem Lane.Unspoken.write {l : Lane} (h : l.Unspoken) {ps : List Piece} {fin : Option Bool}
    (none : ∀ p ∈ ps, p.isFrame = false) : (l.write ps fin).Unspoken := by
  refine ⟨fun p hp => ?_, h.queue⟩
  simp only [Lane.write, List.mem_append, List.mem_map, Option.mem_toList] at hp
  rcases hp with hp | ⟨q, hq, eq⟩ | ⟨ka, -, eq⟩
  · exact h.marks p hp
  · exact Mark.piece.inj eq ▸ none q hq
  · cases eq

theorem Lane.Unspoken.write_one {l : Lane} (h : l.Unspoken) {p : Piece} {fin : Option Bool}
    (part : p.part ≠ .raw) : (l.write [p] fin).Unspoken := by
  refine h.write fun q hq => ?_
  rw [List.mem_singleton.mp hq, Piece.isFrame]
  simpa using part

theorem Pending.shaped_part {e : Pending} {id : Nat} {loc : ReqLoc} (h : e.shaped id loc = true) :
    e.piece.isFrame = false := by
  rw [Pending.shaped, Bool.and_eq_true] at h
  cases hp : e.piece.part <;> simp_all [Piece.isFrame]

theorem Lane.Unspoken.push {l : Lane} (h : l.Unspoken) {e : Pending} (part : e.piece.isFrame = false)
    {reqs : List (Nat × ReqLoc)} : Lane.Unspoken
      { l with reqs, queue := l.queue ++ [e], marks := l.marks ++ [.queued e] } := by
  refine ⟨fun p hp => ?_, fun e' he' => ?_⟩
  · rcases List.mem_append.mp hp with hp | hp
    · exact h.marks p hp
    · cases List.mem_singleton.mp hp
  · rcases List.mem_append.mp he' with he' | he'
    · exact h.queue e' he'
    · rw [List.mem_singleton.mp he']
      exact part

/-- A move that leaves a connection with HTTP speaks no frame. -/
theorem Lane.Step.unspoken {l l' : Lane} {m : Move} (h : l.Step m l') (http : l'.ws = false)
    (hu : l.Unspoken) : l'.Unspoken := by
  have silent : ∀ {ms : List Mark}, (∀ p, .piece p ∉ ms) →
      ∀ p, .piece p ∈ l.marks ++ ms → p.isFrame = false := by
    intro ms none p hp
    rcases List.mem_append.mp hp with hp | hp
    · exact hu.marks p hp
    · exact absurd hp (none p)
  cases h with
  | @interim p _ part =>
      refine ⟨fun q hq => ?_, hu.queue⟩
      rcases List.mem_append.mp hq with hq | hq
      · exact hu.marks q hq
      · cases List.mem_singleton.mp hq
        simp [Piece.isFrame, part]
  | answer _ part | guard _ _ part => exact hu.write_one (by simp [part])
  | dispatch | dispatchStream => exact ⟨silent (by simp), hu.queue⟩
  | refuseUpload _ part =>
      apply Unspoken.write_one
      · exact ⟨silent (by simp), hu.queue⟩
      · simp [part]
  | upgrade => cases http
  | abort _ part | timeOut _ _ part | fileChunk _ _ _ part | fileEnd _ _ _ part =>
      apply Unspoken.write_one
      · exact ⟨hu.marks, hu.queue⟩
      · simp [part]
  | push _ shaped => exact hu.push (Pending.shaped_part shaped)
  | pushLast _ shaped => exact hu.push (Pending.shaped_part shaped)
  | drop queue => exact ⟨hu.marks, fun e he => hu.queue e (queue ▸ List.mem_cons_of_mem _ he)⟩
  | @drain e rest queue | @drainFile e f rest queue =>
      apply Unspoken.write
      · exact ⟨hu.marks, fun e' he => hu.queue e' (queue ▸ List.mem_cons_of_mem e he)⟩
      · intro p hp
        rw [List.mem_singleton.mp hp]
        exact hu.queue e (queue ▸ List.mem_cons_self)
  | sessionWrite ws | sessionClose ws | sessionPush ws => cases ws.symm.trans http
  | _ => exact ⟨hu.marks, hu.queue⟩

/-- Nothing is said before the upgrade. -/
theorem unspoken_of_reaches {good : Lane → Move → Prop} {l l' : Lane}
    (run : Reaches Lane.Step good l l') (hu : l.Unspoken) (http : l'.ws = false) :
    l'.Unspoken := by
  refine run.invariant (I := fun l => l.ws = false → l.Unspoken) (fun _ => hu) ?_ http
  intro l m l' ih _ hstep http'
  refine hstep.unspoken http' (ih ?_)
  by_contra ws
  cases (hstep.ws (by simpa using ws)).symm.trans http'

/-- The connection has said nothing. -/
theorem Reactor.unspoken_iff (r : Reactor) : r.lane.Unspoken ↔ r.frames = [] ∧ r.waiting = [] := by
  have marked : ∀ p, .piece p ∈ r.lane.marks ↔ ∃ ev ∈ r.trace, .piece p ∈ ev.marks r.conn.id :=
    fun p => List.mem_flatMap
  have written : ∀ (ev : Ev) (p : Piece), p ∈ ev.frames ↔
      .piece p ∈ ev.marks r.conn.id ∧ p.isFrame = true := by
    intro ev p
    cases ev with
    | write ps ka fin level => cases fin <;> simp [Ev.frames, Ev.marks]
    | push e => simp [Ev.frames, Ev.marks]
    | _ => simp [Ev.frames, Ev.marks]
  constructor
  · intro h
    refine ⟨List.eq_nil_iff_forall_not_mem.mpr fun p hp => ?_,
      List.filter_eq_nil_iff.mpr fun p hp => ?_⟩
    · obtain ⟨ev, hev, hp⟩ := List.mem_flatMap.mp hp
      obtain ⟨mark, frame⟩ := (written ev p).mp hp
      simp [h.marks p ((marked p).mpr ⟨ev, hev, mark⟩)] at frame
    · obtain ⟨e, he, rfl⟩ := List.mem_map.mp hp
      simp [h.queue e he]
  · rintro ⟨frames, waiting⟩
    refine ⟨fun p hp => ?_, fun e he => ?_⟩
    · obtain ⟨ev, hev, mark⟩ := (marked p).mp hp
      by_contra frame
      have : p ∈ r.frames :=
        List.mem_flatMap.mpr ⟨ev, hev, (written ev p).mpr ⟨mark, by simpa using frame⟩⟩
      simp [frames] at this
    · simpa using List.filter_eq_nil_iff.mp waiting e.piece (List.mem_map_of_mem he)

/-- A step from HTTP says nothing, also when it upgrades. -/
theorem unspoken_step {r r' : Reactor} {a : Act} (hwf : r.WF) (http : r.conn.ws = false)
    (hu : r.lane.Unspoken) (hstep : step env r a = some r') : r'.lane.Unspoken := by
  have run := (step_moves env hwf hstep).1
  rcases enters_step http hstep with same | still
  · exact unspoken_of_reaches run hu (same.trans http)
  · rw [Reactor.unspoken_iff] at hu ⊢
    refine ⟨still.frames.trans hu.1, Eq.trans ?_ hu.2⟩
    rw [Reactor.waiting, still.queue, Reactor.waiting]

end NitroServer.Engine
