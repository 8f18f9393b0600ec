/-
How the request parser and the WebSocket sessions move a lane.

* `tracks_wsProcess` — a session writes frames and may close; it never opens the gate.
* `tracks_processConn` — the parser acts on an open gate only: it answers, dispatches
  or upgrades at most one request.
-/

import NitroServer.Lane.Tracks

namespace NitroServer.Engine

open NitroServer.Lib

variable (env : Env) {good : Lane → Move → Prop}

/-- A lane that is upgraded stays so. -/
theorem ws_of_reaches {l l' : Lane} (run : Reaches Lane.Step good l l') (hw : l.ws = true) :
    l'.ws = true :=
  run.invariant (I := fun l => l.ws = true) hw fun _ _ _ h _ hstep => hstep.ws h

theorem Tracks.ws {r r' : Reactor} (h : Tracks good r r') (hw : r.conn.ws = true) :
    r'.conn.ws = true :=
  ws_of_reaches h.lane hw

/-- One admitted move of an upgraded connection. -/
theorem Tracks.ofSession {r r' : Reactor} {m : Move} (hw : r.conn.ws = true)
    (hstep : r.lane.Step m r'.lane) (hgood : good r.lane m) (reqLoc : r'.reqLoc = r.reqLoc) :
    Tracks good r r' :=
  ⟨.single hgood hstep, mem_others_of_eq (otherReqs_congr reqLoc hstep.id), hstep.id,
    fun _ _ => hstep.ws hw⟩

section Moves

variable (safe : Admits good)
include safe

/-! ### Sessions -/

theorem tracks_wsCloseConn {r : Reactor} {code : Nat} (hw : r.conn.ws = true) :
    Tracks good r (r.wsCloseConn env code) := by
  unfold Reactor.wsCloseConn
  split
  · exact .refl r
  · dsimp only
    set r₁ : Reactor := { r with
      conn := { r.conn with wsClosing := true }
      wsConnLoop := r.wsConnLoop.filter (· ≠ r.conn.id) }
    have frame : ∀ p : Piece, p.part = .raw → Tracks good r
        ((r₁.emitTo r₁.conn.wsEmitter fun sink =>
          [.emitWsMessage sink r₁.conn.id [] Ws.kClose code]).startAnswer env [p] false true) := by
      intro p part
      refine .ofSession (m := .sessionWrite p) hw ?_ (safe.plain _ _ rfl) rfl
      rw [lane_startAnswer, (quiet_emitTo fun _ => by simp [Ev.marks]).lane]
      exact .sessionClose hw part
    exact frame _ rfl

theorem tracks_writeSession {r : Reactor} {p : Piece} (hw : r.conn.ws = true)
    (part : p.part = .raw) : Tracks good r (r.writeAnswer env [p] true false) := by
  have start : Tracks good r (r.startAnswer env [p] true false) :=
    .step (m := .sessionWrite p) (lane_startAnswer env r [p] true false ▸ .sessionWrite hw part)
      (safe.plain _ _ rfl) rfl rfl
  have hws : (r.startAnswer env [p] true false).conn.ws = true := hw
  unfold Reactor.writeAnswer
  simp only [hws]
  split
  · exact start.trans (tracks_wsCloseConn env safe hws)
  · split
    · rename_i h
      simp at h
    · exact start

omit safe in
theorem quiet_wsEmit (r : Reactor) (opcode : Nat) : Quiet r (r.wsEmit opcode) := by
  have logged : Quiet r (r.log [.track r.conn.id r.conn.wsMsg]) :=
    quiet_log (by simp [Ev.marks])
  exact (logged.trans (quiet_emitTo fun _ => by simp [Ev.marks])).trans ⟨rfl, rfl, rfl⟩

theorem tracks_wsReassembled {r : Reactor} {fin : Bool} {opcode : Nat}
    (hw : r.conn.ws = true) : Tracks good r (r.wsReassembled env fin opcode).1 := by
  unfold Reactor.wsReassembled
  split
  · exact tracks_wsCloseConn env safe hw
  · split
    · exact .refl r
    · split
      · exact tracks_wsCloseConn env safe hw
      · exact (quiet_wsEmit r opcode).tracks

theorem tracks_wsData {r : Reactor} {h : Ws.FrameHeader} {payload : Bytes}
    (hw : r.conn.ws = true) : Tracks good r (r.wsData env h payload).1 := by
  unfold Reactor.wsData
  split <;> split
  · exact tracks_wsCloseConn env safe hw
  · refine Tracks.trans ?_ (tracks_wsReassembled env safe ?_)
    · exact Quiet.tracks ⟨rfl, rfl, rfl⟩
    · exact hw
  · exact tracks_wsCloseConn env safe hw
  · refine Tracks.trans ?_ (tracks_wsReassembled env safe ?_)
    · exact Quiet.tracks ⟨rfl, rfl, rfl⟩
    · exact hw

theorem tracks_wsHandle {r : Reactor} {h : Ws.FrameHeader} {payload : Bytes}
    (hw : r.conn.ws = true) : Tracks good r (r.wsHandle env h payload).1 := by
  unfold Reactor.wsHandle
  split
  · exact tracks_writeSession env safe hw rfl
  · split
    · exact .refl r
    · split
      · exact tracks_wsCloseConn env safe hw
      · exact tracks_wsData env safe hw

theorem tracks_wsFrame {r : Reactor} (hw : r.conn.ws = true) :
    Tracks good r (r.wsFrame env).1 := by
  unfold Reactor.wsFrame
  split
  · split
    · exact tracks_wsCloseConn env safe hw
    · split
      · exact tracks_wsCloseConn env safe hw
      · split
        · exact .refl r
        · split
          · exact tracks_wsCloseConn env safe hw
          · split
            · exact .refl r
            · refine Tracks.trans ?_ (tracks_wsHandle env safe ?_)
              · exact Quiet.tracks ⟨rfl, rfl, rfl⟩
              · exact hw
  · exact .refl r

theorem tracks_wsFrames (fuel : Nat) {r : Reactor} (hw : r.conn.ws = true) :
    Tracks good r (r.wsFrames env fuel) := by
  induction fuel generalizing r with
  | zero => exact .refl r
  | succ fuel ih =>
      have turn := tracks_wsFrame env safe hw
      unfold Reactor.wsFrames
      split
      · exact .refl r
      · split
        · rename_i r' h
          rw [h] at turn
          exact turn.trans (ih (turn.ws hw))
        · rename_i r' h
          rw [h] at turn
          exact turn

theorem tracks_wsProcess {r : Reactor} (hw : r.conn.ws = true) :
    Tracks good r (r.wsProcess env) :=
  tracks_wsFrames env safe _ hw

/-! ### The handshake -/

omit safe in
theorem opens_wsShake (key : Bytes) (deflate : Bool) (protocol : Option Bytes) :
    (Piece.mk .session .whole (Reactor.wsShake key deflate protocol)).opens = true := by
  simp only [Piece.opens, Reactor.wsShake, List.append_assoc, List.isPrefixOf_iff_prefix]
  refine List.IsPrefix.trans ?_ (List.prefix_append _ _)
  decide

omit safe in
theorem lane_wsEnter (r : Reactor) : r.wsEnter.lane = { r.lane with ws := true } := rfl

theorem tracks_wsOpen {r : Reactor} {head : ParsedHead} {route : RouteEntry}
    {params : List RouteParam} {path query key : Bytes} {protocol : Option Bytes}
    (http : r.conn.ws = false) (gate : r.lane.ready) :
    Tracks good r (r.wsOpen env head route params path query key protocol) := by
  unfold Reactor.wsOpen
  dsimp only
  set deflate := env.cfg.wsCompression &&
    (uvFindHeader head.headers "sec-websocket-extensions").any fun e =>
      (findSub (ascii "permessage-deflate") e.value).isSome
  set r₁ := (r.setConn { r.conn with deflate := deflate }).log [.upgrade]
  set p : Piece := ⟨.session, .whole, Reactor.wsShake key deflate protocol⟩
  -- the 101 goes out before the connection counts as a session
  have shake : Tracks good r (r₁.writeAnswer env [p] true false).wsEnter := by
    have start : r.lane.Step (.upgrade p)
        { (r₁.startAnswer env [p] true false).lane with ws := true } := by
      have lane₁ : r₁.lane = { r.lane with marks := r.lane.marks ++ [.upgrade] } := by
        simp [r₁, Reactor.lane, Reactor.log, Reactor.setConn, Ev.marks, Reactor.ownReqs,
          Reactor.ownQueue]
      rw [lane_startAnswer, lane₁]
      exact .upgrade gate rfl rfl (opens_wsShake ..)
    obtain heq | ⟨r₃, quiet, heq⟩ :=
      writeAnswer_cases env (r := r₁) http
    · rw [heq]
      exact ⟨.single (safe.plain _ _ rfl) start, mem_others_of_eq (otherReqs_congr rfl rfl), rfl,
        fun _ _ => rfl⟩
    · have closed : r₃.closeConn.lane =
          { (r₁.startAnswer env [p] true false).lane with closing := true } := by
        rw [lane_closeConn, quiet.lane]
      rw [heq]
      refine ⟨(Reaches.single (safe.plain _ _ rfl) start).trans (.single (safe.plain _ .close rfl) ?_),
        mem_others_of_eq (otherReqs_congr ?_ ?_), ?_, fun _ _ => rfl⟩
      · rw [lane_wsEnter, closed]
        exact .close
      · exact (closeConn_reqLoc r₃).trans quiet.reqLoc
      · exact congrArg Lane.id closed
      · exact congrArg Lane.id closed
  refine shake.trans (Tracks.trans ?_ (tracks_wsProcess env safe ?_))
  · exact Quiet.tracks (quiet_emitTo fun _ => by simp [Ev.marks])
  · rfl

theorem tracks_wsHandshake {r : Reactor} {head : ParsedHead} {route : RouteEntry}
    {params : List RouteParam} {path query : Bytes}
    (http : r.conn.ws = false) (gate : r.lane.ready) :
    Tracks good r (r.wsHandshake env head route params path query) := by
  unfold Reactor.wsHandshake
  split
  · exact tracks_refuse env safe http gate.1
  split
  · exact tracks_refuse env safe http gate.1
  split
  · exact tracks_refuseText env safe http gate.1
  split
  · exact tracks_wsOpen env safe http gate
  split
  · exact tracks_wsOpen env safe http gate
  split
  · exact tracks_wsOpen env safe http gate
  split
  · exact tracks_refuse env safe http gate.1
  · exact tracks_wsOpen env safe http gate

/-! ### Dispatch -/

omit safe in
theorem lane_dispatch {r : Reactor} {q : Request} {route : RouteEntry} {ka : Bool} :
    (r.dispatch env q route ka).lane =
      r.lane.register [(r.nextId, ⟨r.conn.id, decide (q.head.method = .head), ka⟩)] := by
  simp [Reactor.dispatch, Reactor.lane, Lane.register, Reactor.ownReqs, Reactor.ownQueue,
    Ev.marks]

omit safe in
theorem otherReqs_dispatch {r : Reactor} {q : Request} {route : RouteEntry} {ka : Bool} :
    (r.dispatch env q route ka).otherReqs = r.otherReqs := by
  simp [Reactor.dispatch, Reactor.otherReqs]

/-- A dispatch is admitted when it does not keep the connection, or when keeping is. -/
theorem admits_dispatch {l : Lane} {isHead ka : Bool}
    (kept : ka = true → ∀ l m, Move.keeps m = true → good l m) :
    good l (.dispatch isHead ka) := by
  cases ka with
  | true => exact kept rfl _ _ rfl
  | false => exact safe.plain _ _ rfl

theorem tracks_dispatchWhole {r : Reactor} {q : Request} {route : RouteEntry}
    {params : List RouteParam} {ka : Bool} {body : Bytes} (gate : r.lane.ready)
    (kept : ka = true → ∀ l m, Move.keeps m = true → good l m) :
    Tracks good r (r.dispatchWhole env q route params ka body) := by
  have registered : Tracks good r (r.dispatch env q route ka) := by
    refine .ofStep (m := .dispatch (decide (q.head.method = .head)) ka) ?_
      (admits_dispatch safe kept) (mem_others_of_eq (otherReqs_dispatch env)) rfl
    rw [lane_dispatch]
    exact .dispatch gate
  refine registered.trans (Quiet.tracks (quiet_emitTo fun s => ?_))
  split <;> simp [Ev.marks]

omit safe in
/-- No answer keeps the connection while the server drains. -/
theorem draining_of_mayKeepAlive {r : Reactor} {head : ParsedHead}
    (h : r.mayKeepAlive env head = true) : r.draining = false := by
  simp only [Reactor.mayKeepAlive, Bool.and_eq_true, Bool.not_eq_true'] at h
  exact h.1.1.2

/-- A streamed request: its upload begins, or it is over the cap at once. -/
theorem tracks_dispatchStream {r : Reactor} {q : Request} {route : RouteEntry}
    {params : List RouteParam} {bodyStart : Nat} (hwf : r.WF) (http : r.conn.ws = false)
    (gate : r.lane.ready)
    (kept : r.draining = false → ∀ l m, Move.keeps m = true → good l m) : Tracks good r (r.dispatchStream env q route params bodyStart) := by
  unfold Reactor.dispatchStream
  split
  · refine Tracks.trans ?_ (tracks_refuseText env safe ?_ ?_)
    · exact .step (m := .skipId) .skipId (safe.plain _ _ rfl) rfl rfl
    · exact http
    · exact gate.1
  · dsimp only
    set r₁ := (r.dispatch env q route (r.mayKeepAlive env q.head)).emitTo r.emitter fun sink =>
      [.emitHead sink (Reactor.headMsg q r.nextId (declaredLength q.head) true false route params)]
    have told : Quiet (r.dispatch env q route (r.mayKeepAlive env q.head)) r₁ :=
      quiet_emitTo fun _ => by simp [Ev.marks]
    set r₂ := r₁.setConn { r₁.conn with
      streamingBody := true
      streamChunked := q.chunked
      streamReqId := r.nextId
      streamEmitter := r.emitter
      bodyRemaining := if q.chunked then 0 else declaredLength q.head
      streamMaxBody := q.maxBody env
      streamBodyTotal := 0
      buf := r₁.conn.buf.drop bodyStart
      lastActive := r₁.clock } with hr₂
    have lane₂ : r₂.lane = { r.lane.register
        [(r.nextId, ⟨r.conn.id, decide (q.head.method = .head), r.mayKeepAlive env q.head⟩)] with
        upload := some r.nextId } := by
      have : r₂.lane = { r₁.lane with upload := some r.nextId } := rfl
      rw [this, told.lane, lane_dispatch]
    have others₂ : r₂.otherReqs = r.otherReqs :=
      (otherReqs_congr told.reqLoc told.id).trans (otherReqs_dispatch env)
    have begun : Tracks good r r₂ :=
      .ofStep (m := .dispatch (decide (q.head.method = .head)) (r.mayKeepAlive env q.head))
        (lane₂ ▸ .dispatchStream gate)
        (admits_dispatch safe fun h => kept (draining_of_mayKeepAlive env h))
        (mem_others_of_eq others₂) rfl
    unfold Reactor.emitStream
    split
    · obtain goes | ⟨_, r₃, quiet, hid, heq⟩ := emitStreamChunked_cases env safe r₂
      · exact begun.trans goes
      · rw [heq]
        have sameId : r₃.conn.streamReqId = r.nextId := hid
        have others₃ : r₃.otherReqs = r.otherReqs :=
          (otherReqs_congr quiet.reqLoc quiet.id).trans others₂
        obtain ⟨p, origin, part, opens, hlane, hothers, hses⟩ :=
          abort_lane env (r := r₃) (by rw [quiet.ws]; exact http)
        rw [others₃] at hothers
        refine .ofStep (m := .refuseUpload p) ?_ (safe.plain _ _ rfl) hothers
          (hses.trans quiet.sessions)
        have kept : r.lane.reqs.filter (fun e => e.1 != r.nextId) = r.lane.reqs :=
          List.filter_eq_self.mpr fun e he => by
            have := hwf.own e.1 (Lane.mem_ids.mpr (.inl (List.mem_map_of_mem he)))
            simpa using this.ne
        rw [sameId] at origin
        rw [hlane, quiet.lane, lane₂, sameId]
        convert Lane.Step.refuseUpload gate part origin opens using 2
        simp [Lane.erase, Lane.register, kept]
    · exact begun.trans (tracks_emitStreamBytes safe r₂)

/-! ### The parser -/

theorem tracks_answerRequest {r : Reactor} {q : Request} {ka : Bool} {body : Bytes}
    (http : r.conn.ws = false) (gate : r.lane.ready)
    (kept : ka = true → ∀ l m, Move.keeps m = true → good l m) :
    Tracks good r (r.answerRequest env q ka body).1 := by
  unfold Reactor.answerRequest
  dsimp only
  split
  · split
    · exact tracks_refuseText env safe http gate.1
    · refine tracks_answer env safe http gate.1 rfl (.inl rfl) ?_ (fun h => ?_)
        fun h => kept h _ _ rfl
      · split <;> exact opens_head ..
      · subst h
        dsimp only
        split <;> exact closeLine_uvBuildHead ..
  · split
    · split
      · exact tracks_refuseText env safe http gate.1
      · split
        · exact tracks_refuse env safe http gate.1
        · exact tracks_wsHandshake env safe http gate
    · split
      · exact tracks_refuseText env safe http gate.1
      · split
        · refine tracks_answer env safe http gate.1 rfl (.inr rfl) (opens_uvBuildHead ..)
            (fun h => ?_) fun h => kept (Bool.and_eq_true_iff.mp h).1 _ _ rfl
          rw [h]
          exact (closeLine_uvBuildHead ..).trans (List.infix_append_left ..)
        · split
          · exact tracks_refuseText env safe http gate.1
          · exact tracks_dispatchWhole env safe gate kept

omit safe in
theorem lane_writeRaw {r : Reactor} {p : Piece} (h : p.bytes ≠ []) :
    (r.writeRaw env p).lane = { r.lane with marks := r.lane.marks ++ [.piece p] } := by
  unfold Reactor.writeRaw
  rw [if_neg h]
  simp [Reactor.issueWrite, Reactor.lane, finishingOf, Ev.marks, Reactor.ownReqs,
    Reactor.ownQueue]

theorem tracks_sendContinue {r : Reactor} {q : Request} (gate : r.lane.ready) :
    Tracks good r (r.sendContinue env q) := by
  unfold Reactor.sendContinue
  split
  · split
    · have noted : Quiet r (r.setConn { r.conn with continueSent := true }) := ⟨rfl, rfl, rfl⟩
      refine noted.tracks.trans ?_
      refine .step (m := .interim ⟨.engine, .interim, Reactor.kContinue⟩) ?_ (safe.plain _ _ rfl) rfl rfl
      rw [lane_writeRaw env (show Reactor.kContinue ≠ [] by decide)]
      exact .interim gate rfl
    · exact Quiet.tracks ⟨rfl, rfl, rfl⟩
  · exact .refl r

omit safe in
/-- 100-continue leaves the gate as it is. -/
theorem sendContinue_gate {r : Reactor} {q : Request} :
    (r.sendContinue env q).conn.busy = r.conn.busy ∧
      (r.sendContinue env q).conn.closing = r.conn.closing ∧
      (r.sendContinue env q).lane.upload = r.lane.upload ∧
      (r.sendContinue env q).conn.ws = r.conn.ws := by
  unfold Reactor.sendContinue
  split
  · split
    · unfold Reactor.writeRaw
      split <;> exact ⟨rfl, rfl, rfl, rfl⟩
    · exact ⟨rfl, rfl, rfl, rfl⟩
  · exact ⟨rfl, rfl, rfl, rfl⟩

omit safe in
theorem sendContinue_draining {r : Reactor} {q : Request} :
    (r.sendContinue env q).draining = r.draining := by
  unfold Reactor.sendContinue Reactor.writeRaw
  split
  · split
    · split <;> rfl
    · rfl
  · rfl

theorem tracks_processRequest {r : Reactor} {q : Request} {bodyStart : Nat} (hwf : r.WF)
    (http : r.conn.ws = false) (gate : r.lane.ready)
    (kept : r.draining = false → ∀ l m, Move.keeps m = true → good l m) :
    Tracks good r (r.processRequest env q bodyStart).1 := by
  unfold Reactor.processRequest
  split
  · exact tracks_refuse env safe http gate.1
  · have sent := tracks_sendContinue env safe (q := q) gate
    obtain ⟨busy, closing, upload, ws⟩ := sendContinue_gate env (r := r) (q := q)
    have gate' : (r.sendContinue env q).lane.ready :=
      ⟨⟨busy.trans gate.1.1, closing.trans gate.1.2⟩, upload.trans gate.2⟩
    have http' : (r.sendContinue env q).conn.ws = false := ws.trans http
    have kept' : (r.sendContinue env q).draining = false →
        ∀ l m, Move.keeps m = true → good l m := by
      rw [sendContinue_draining]
      exact kept
    refine sent.trans ?_
    dsimp only
    split
    · exact tracks_dispatchStream env safe (hwf.tracks sent) http' gate' kept'
    · split
      · exact Quiet.tracks ⟨rfl, rfl, rfl⟩
      · exact tracks_refuse env safe http' gate'.1
      · refine Tracks.trans ?_ (tracks_answerRequest env safe ?_ ?_ ?_)
        · exact Quiet.tracks ⟨rfl, rfl, rfl⟩
        · exact http'
        · exact gate'
        · exact fun h => kept' (draining_of_mayKeepAlive env h)

theorem tracks_awaitHead (r : Reactor) : Tracks good r r.awaitHead := by
  unfold Reactor.awaitHead
  split
  · exact tracks_close safe r
  · split
    · exact Quiet.tracks ⟨rfl, rfl, rfl⟩
    · exact .refl r

theorem tracks_processHead {r : Reactor} (hwf : r.WF) (http : r.conn.ws = false)
    (gate : r.lane.ready)
    (kept : r.draining = false → ∀ l m, Move.keeps m = true → good l m) :
    Tracks good r (r.processHead env).1 := by
  unfold Reactor.processHead
  split
  · exact tracks_awaitHead safe r
  · dsimp only
    have seen : Quiet r (r.setConn { r.conn with headPending := false }) := ⟨rfl, rfl, rfl⟩
    refine seen.tracks.trans ?_
    split
    · exact tracks_refuse env safe http gate.1
    · split
      · exact tracks_refuse env safe http gate.1
      · have seen' : Tracks good r _ := seen.tracks
        exact tracks_processRequest env safe (hwf.tracks seen') http gate kept

/-- `processConn` acts on an open gate only. -/
theorem tracks_processConn {r : Reactor} (hwf : r.WF) (http : r.conn.ws = false)
    (kept : r.draining = false → ∀ l m, Move.keeps m = true → good l m) :
    Tracks good r (r.processConn env) := by
  unfold Reactor.processConn
  split
  · exact .refl r
  · rename_i streaming
    have upload : r.lane.upload = none := by
      simp [Reactor.lane, uploadOf, streaming]
    split
    · exact .refl r
    · split
      · split
        · exact .refl r
        · exact Quiet.tracks ⟨rfl, rfl, rfl⟩
      · rw [Reactor.processLoop_succ]
        split
        · exact .refl r
        · rename_i h
          simp only [not_or, Bool.not_eq_true] at h
          exact tracks_processHead env safe hwf http ⟨h, upload⟩ kept

end Moves

end NitroServer.Engine
