/-
No lost wakeup on an HTTP/1.1 connection.

`processConn` is resumed by a read and by a write completion that opens the gate, and
does nothing while an upload owns the buffer. A connection with nothing left to wait
for should have nothing left to do: its buffer holds no request (`idleBuffer`), only a
head that is not complete, a head whose own body is still to come, or a beginning of
the HTTP/2 preface.

* `settled_processConn` — the parser leaves an idle buffer, or a shut gate.
* `no_lost_wakeup` — so does every run, when no upload ends behind an open gate with a
  request behind it.
* `upload_end_forgets` — a run in which it does: the handler's answer has landed, the
  last bytes of the upload bring the next request, and nobody looks at it.
-/

import NitroServer.Lane.Refine

namespace NitroServer.Engine

open NitroServer.Lib

variable (env : Env)

/-! ### A buffer with nothing to act on -/

/-- The request waits for its body: it is not refused, its body is not streamed and has
not all arrived. -/
def Request.awaitsBody (q : Request) (buf : Bytes) (start : Nat) : Bool :=
  (q.chunked || decide (declaredLength q.head ≤ q.maxBody env)) &&
    (if q.hasBody then q.streamRoute else none).isNone && q.takeBody env buf start == .wait

namespace Reactor

/-- The buffer starts with a request that waits for its body. -/
def awaitsBody (buf : Bytes) : Bool :=
  match findSub crlf2 buf with
  | none => false
  | some headEnd =>
      let head := parseRequestHead buf headEnd
      head.ok && match uvFraming head with
        | .error _ => false
        | .ok chunked => (Request.of env head chunked).awaitsBody env buf (headEnd + 4)

/-- The buffer holds no request: no complete head, a head that waits for its own body, or
a beginning of the HTTP/2 preface. -/
def idleBuffer (r : Reactor) : Bool :=
  (findSub crlf2 r.conn.buf).isNone || awaitsBody env r.conn.buf || r.looksH2 env

theorem idleBuffer_congr {r r' : Reactor} (buf : r'.conn.buf = r.conn.buf)
    (tls : r'.conn.tls = r.conn.tls) (served : r'.conn.served = r.conn.served)
    (busy : r'.conn.busy = r.conn.busy) : r'.idleBuffer env = r.idleBuffer env := by
  simp only [idleBuffer, looksH2, buf, tls, served, busy]

/-- Behind an open gate, with no upload under way, the buffer is idle. -/
def Settled (r : Reactor) : Prop :=
  r.conn.busy = false → r.conn.closing = false → r.conn.streamingBody = false →
    r.conn.h2 = false → r.idleBuffer env = true

variable {env}

theorem Settled.of_busy {r : Reactor} (h : r.conn.busy = true) : r.Settled env := by
  intro busy
  simp [h] at busy

theorem Settled.of_closing {r : Reactor} (h : r.conn.closing = true) : r.Settled env := by
  intro _ closing
  simp [h] at closing

/-- What else happens to the connection does not matter. -/
theorem Settled.congr {r r' : Reactor} (h : r.Settled env) (buf : r'.conn.buf = r.conn.buf)
    (tls : r'.conn.tls = r.conn.tls) (served : r'.conn.served = r.conn.served)
    (busy : r'.conn.busy = r.conn.busy) (closing : r'.conn.closing = r.conn.closing)
    (streaming : r'.conn.streamingBody = r.conn.streamingBody) (h2 : r'.conn.h2 = r.conn.h2) :
    r'.Settled env := by
  intro hb hc hs hh
  rw [idleBuffer_congr env buf tls served busy]
  exact h (busy ▸ hb) (closing ▸ hc) (streaming ▸ hs) (h2 ▸ hh)

theorem Settled.of_conn {r r' : Reactor} (h : r.Settled env) (conn : r'.conn = r.conn) :
    r'.Settled env := by
  apply h.congr <;> rw [conn]

variable (env)

/-! ### Shut gates -/

@[simp] theorem closeConn_closing (r : Reactor) : r.closeConn.conn.closing = true := by
  unfold closeConn
  split
  · assumption
  · rfl

@[simp] theorem refuse_busy (r : Reactor) (o : Origin) (status : Nat) :
    (r.refuse env o status).conn.busy = true :=
  writeAnswer_busy ..

@[simp] theorem refuseText_busy (r : Reactor) (status : Nat) (msg : String) (hs : List Header) :
    (r.refuseText env status msg hs).conn.busy = true :=
  writeAnswer_busy ..

theorem emitTo_conn (r : Reactor) (sink : Option Nat) (evs : Nat → List Ev) :
    (r.emitTo sink evs).conn = r.conn := rfl

theorem wsReassembled_busy {r : Reactor} {fin : Bool} {opcode : Nat}
    (h : r.conn.busy = true) : (r.wsReassembled env fin opcode).1.conn.busy = true := by
  unfold wsReassembled
  split
  · exact wsCloseConn_busy env r 1009 h
  · split
    · exact h
    · split
      · exact wsCloseConn_busy env r 1007 h
      · exact h

theorem wsHandle_busy {r : Reactor} {h : Ws.FrameHeader} {payload : Bytes}
    (busy : r.conn.busy = true) : (r.wsHandle env h payload).1.conn.busy = true := by
  unfold wsHandle
  split
  · exact writeAnswer_busy ..
  · split
    · exact busy
    · split
      · exact wsCloseConn_busy env r _ busy
      · unfold wsData
        split
        · split
          · exact wsCloseConn_busy env r _ busy
          · exact wsReassembled_busy env busy
        · split
          · exact wsCloseConn_busy env r _ busy
          · exact wsReassembled_busy env busy

theorem wsFrame_busy {r : Reactor} (h : r.conn.busy = true) :
    (r.wsFrame env).1.conn.busy = true := by
  unfold wsFrame
  split
  · split
    · exact wsCloseConn_busy env r _ h
    · split
      · exact wsCloseConn_busy env r _ h
      · split
        · exact h
        · split
          · exact wsCloseConn_busy env r _ h
          · split
            · exact h
            · exact wsHandle_busy env h
  · exact h

/-- A session keeps the gate shut. -/
theorem wsProcess_busy {r : Reactor} (h : r.conn.busy = true) :
    (r.wsProcess env).conn.busy = true := by
  unfold wsProcess
  generalize r.conn.buf.length + 1 = fuel
  induction fuel generalizing r with
  | zero => exact h
  | succ fuel ih =>
      unfold wsFrames
      split
      · exact h
      · have kept := wsFrame_busy env h
        split
        · rename_i r' heq
          rw [heq] at kept
          exact ih kept
        · rename_i r' heq
          rw [heq] at kept
          exact kept

theorem wsOpen_busy (r : Reactor) (head : ParsedHead) (route : RouteEntry)
    (params : List RouteParam) (path query key : Bytes) (protocol : Option Bytes) :
    (r.wsOpen env head route params path query key protocol).conn.busy = true :=
  wsProcess_busy env (writeAnswer_busy env _ _ _ _)

theorem wsHandshake_busy (r : Reactor) (head : ParsedHead) (route : RouteEntry)
    (params : List RouteParam) (path query : Bytes) :
    (r.wsHandshake env head route params path query).conn.busy = true := by
  unfold wsHandshake
  split
  · exact refuse_busy ..
  split
  · exact refuse_busy ..
  split
  · exact refuseText_busy ..
  split
  · exact wsOpen_busy ..
  split
  · exact wsOpen_busy ..
  split
  · exact wsOpen_busy ..
  split
  · exact refuse_busy ..
  · exact wsOpen_busy ..

/-- A request that is all there shuts the gate. -/
theorem answerRequest_shuts (r : Reactor) (q : Request) (ka : Bool) (body : Bytes) :
    (r.answerRequest env q ka body).1.conn.busy = true := by
  unfold answerRequest
  dsimp only
  split
  · split
    · exact refuseText_busy ..
    · exact writeAnswer_busy ..
  · split
    · split
      · exact refuseText_busy ..
      · split
        · exact refuse_busy ..
        · exact wsHandshake_busy ..
    · split
      · exact refuseText_busy ..
      · split
        · exact writeAnswer_busy ..
        · split
          · exact refuseText_busy ..
          · rfl

theorem emitStream_busy {r : Reactor} (h : r.conn.busy = true) :
    (r.emitStream env).conn.busy = true := by
  unfold emitStream
  split
  · unfold emitStreamChunked
    obtain ⟨stop, s⟩ := scanChunks r.conn.streamMaxBody (r.conn.buf.length + 1) r.chunkScan
    dsimp only
    have decoded : ∀ (r : Reactor) (out : Bytes), (r.emitDecoded out).conn = r.conn := by
      intro r out
      unfold emitDecoded
      split <;> rfl
    cases stop with
    | tooLarge => exact refuse_busy ..
    | malformed => simpa [setConn] using h
    | more =>
        rw [decoded]
        exact h
    | done =>
        simp only [endStream, setConn, decoded]
        exact h
  · have taken : r.takeStreamBytes.conn.busy = true := by
      unfold takeStreamBytes
      dsimp only
      split <;> exact h
    unfold emitStreamBytes
    split <;> exact taken

theorem dispatchStream_shuts (r : Reactor) (q : Request) (route : RouteEntry)
    (params : List RouteParam) (bodyStart : Nat) :
    (r.dispatchStream env q route params bodyStart).conn.busy = true := by
  unfold dispatchStream
  split
  · exact refuseText_busy ..
  · exact emitStream_busy env rfl

/-! ### The parser -/

/-- 100-continue changes nothing the parser looks at. -/
theorem sendContinue_conn (r : Reactor) (q : Request) :
    (r.sendContinue env q).conn.buf = r.conn.buf ∧
      (r.sendContinue env q).conn.busy = r.conn.busy := by
  unfold sendContinue
  split
  · split
    · unfold writeRaw
      split <;> exact ⟨rfl, rfl⟩
    · exact ⟨rfl, rfl⟩
  · exact ⟨rfl, rfl⟩

/-- A request shuts the gate, or waits for its body. -/
theorem processRequest_idle (r : Reactor) (q : Request) (bodyStart : Nat) :
    (r.processRequest env q bodyStart).1.conn.busy = true ∨
      (r.processRequest env q bodyStart).1.conn.buf = r.conn.buf ∧
        q.awaitsBody env r.conn.buf bodyStart = true := by
  unfold processRequest
  split
  · exact .inl (refuse_busy ..)
  · rename_i fits
    obtain ⟨buf, -⟩ := sendContinue_conn env r q
    dsimp only
    split
    · exact .inl (dispatchStream_shuts ..)
    · rename_i whole
      split
      · rename_i wait
        rw [buf] at wait
        have cap : q.chunked = true ∨ declaredLength q.head ≤ q.maxBody env := by
          simpa [or_iff_not_imp_left] using fits
        exact .inr ⟨buf, by simpa [Request.awaitsBody, whole, wait] using cap⟩
      · exact .inl (refuse_busy ..)
      · exact .inl (answerRequest_shuts ..)

/-- One turn of the parser leaves an idle buffer, or shuts the gate. -/
theorem processHead_idle (r : Reactor) :
    (r.processHead env).1.conn.busy = true ∨ (r.processHead env).1.idleBuffer env = true := by
  unfold processHead
  split
  · rename_i hcut
    right
    have buf : r.awaitHead.conn.buf = r.conn.buf := by
      unfold awaitHead
      split
      · unfold closeConn
        split <;> rfl
      · split <;> rfl
    simp [idleBuffer, buf, hcut]
  · rename_i headEnd hcut
    dsimp only
    split
    · exact .inl (refuse_busy ..)
    · rename_i ok
      split
      · exact .inl (refuse_busy ..)
      · rename_i chunked framing
        refine (processRequest_idle env _ _ _).imp_right ?_
        rintro ⟨buf, awaits⟩
        have hbuf : (r.setConn { r.conn with headPending := false }).conn.buf = r.conn.buf := rfl
        rw [hbuf] at buf ok framing awaits
        simp only [idleBuffer, buf, hbuf, awaitsBody, hcut, framing, Bool.or_eq_true,
          Bool.and_eq_true]
        exact .inl (.inr ⟨by simpa using ok, awaits⟩)

theorem settled_processConn (r : Reactor) : (r.processConn env).Settled env := by
  unfold processConn
  split
  · rename_i streaming
    intro _ _ h
    simp [streaming] at h
  · split
    · rename_i h2
      intro _ _ _ h
      simp [h2] at h
    · split
      · rename_i looks
        split
        · intro _ _ _ _
          simp [idleBuffer, looks]
        · intro _ _ _ h
          simp [setConn] at h
      · rw [processLoop_succ]
        split
        · rename_i shut
          exact shut.elim .of_busy .of_closing
        · rcases processHead_idle env r with busy | idle
          · exact .of_busy busy
          · exact fun _ _ _ _ => idle

/-! ### Uploads -/

/-- What is left of the buffer when these bytes end the upload. -/
def uploadRest (r : Reactor) (data : Bytes) : Option Bytes :=
  let r := r.received data
  if r.conn.streamChunked then
    match scanChunks r.conn.streamMaxBody (r.conn.buf.length + 1) r.chunkScan with
    | (.done, s) => some s.buf
    | _ => none
  else if r.takeStreamBytes.conn.bodyRemaining = 0 then some r.takeStreamBytes.conn.buf
  else none

/-- The buffer behind an upload that ends holds no request. -/
def restIdle (r : Reactor) (data : Bytes) : Bool :=
  (r.uploadRest data).all fun rest => (r.setConn { r.conn with buf := rest }).idleBuffer env

theorem takeStreamBytes_conn (r : Reactor) :
    ∃ buf n, r.takeStreamBytes.conn = { r.conn with buf := buf, bodyRemaining := n } := by
  unfold takeStreamBytes
  dsimp only
  split
  · exact ⟨_, _, rfl⟩
  · exact ⟨r.conn.buf, r.conn.bodyRemaining, rfl⟩

theorem emitDecoded_conn (r : Reactor) (out : Bytes) : (r.emitDecoded out).conn = r.conn := by
  unfold emitDecoded
  split <;> rfl

/-- An upload goes on, or ends with an idle buffer behind it, or shuts the gate. -/
theorem settled_emitStream {r : Reactor} {data : Bytes} (streaming : r.conn.streamingBody = true)
    (rest : r.conn.busy = true ∨ r.restIdle env data = true) :
    ((r.received data).emitStream env).Settled env := by
  rcases rest with busy | rest
  · exact .of_busy (emitStream_busy env busy)
  have going : ∀ r' : Reactor, r'.conn.streamingBody = true → r'.Settled env := by
    intro r' h _ _ h'
    simp [h] at h'
  have ended : ∀ r' : Reactor, ∀ left, r.uploadRest data = some left → r'.conn.buf = left →
      r'.conn.tls = r.conn.tls → r'.conn.served = r.conn.served →
      r'.conn.busy = r.conn.busy → r'.Settled env := by
    intro r' left h buf tls served busy _ _ _ _
    simp only [restIdle, h, Option.all_some] at rest
    rw [idleBuffer_congr env (r := r.setConn { r.conn with buf := left }) buf tls served busy]
    exact rest
  unfold emitStream
  split
  · rename_i chunked
    unfold emitStreamChunked
    cases hs : scanChunks (r.received data).conn.streamMaxBody
        ((r.received data).conn.buf.length + 1) (r.received data).chunkScan with
    | mk stop s =>
        dsimp only
        cases stop with
        | tooLarge => exact .of_busy (refuse_busy ..)
        | malformed => exact .of_closing (closeConn_closing _)
        | more =>
            refine going _ ?_
            rw [emitDecoded_conn]
            exact streaming
        | done =>
            refine ended _ s.buf ?_ ?_ ?_ ?_ ?_
            · simp only [uploadRest, if_pos chunked, hs]
            all_goals simp only [endStream, setConn, emitDecoded_conn, received]
  · rename_i chunked
    unfold emitStreamBytes
    obtain ⟨buf, n, hconn⟩ := takeStreamBytes_conn (r.received data)
    split
    · rename_i zero
      refine ended _ (r.received data).takeStreamBytes.conn.buf ?_ rfl ?_ ?_ ?_
      · simp only [uploadRest, if_neg chunked, if_pos zero]
      all_goals
        simp only [endStream, setConn, hconn]
        rfl
    · refine going _ ?_
      rw [hconn]
      exact streaming

/-! ### Every step -/

theorem settled_readCb {r : Reactor} {data : Bytes} (hwf : r.WF)
    (rest : r.conn.streamingBody = true → r.conn.busy = true ∨ r.restIdle env data = true) :
    (r.readCb env data).Settled env := by
  unfold readCb
  dsimp only
  split
  · exact .of_busy (refuse_busy ..)
  · split
    · rename_i streaming
      exact settled_emitStream env streaming (rest streaming)
    · split
      · rename_i ws
        exact .of_busy (wsProcess_busy env (hwf.sound.session ws).2)
      · exact settled_processConn env _

theorem settled_onWrite {r : Reactor} (h : r.Settled env) (w : WriteCtx) (left : List WriteCtx)
    (ok : Bool) (got : Bytes) : (r.onWrite env w left ok got).Settled env := by
  have done : (r.writeDone w left).Settled env := h.congr rfl rfl rfl rfl rfl rfl rfl
  unfold onWrite
  dsimp only
  split
  · exact .of_closing (closeConn_closing _)
  · split
    · split
      · unfold continueFileSend
        split
        · exact done
        · split
          · exact done
          · dsimp only
            split
            · exact .of_closing (closeConn_closing _)
            · exact .of_busy (writeAnswer_busy ..)
      · exact done
    · unfold onFinished
      split
      · exact .of_closing (closeConn_closing _)
      · exact settled_processConn env _

theorem settled_onAsync {r : Reactor} (h : r.Settled env) : (r.onAsync env).Settled env := by
  have each : ∀ (g : Pending × List Pending) (r : Reactor), r.Settled env →
      (r.writeGroup env g).Settled env := by
    intro g r h
    unfold writeGroup
    split
    · exact h
    · split <;> exact .of_busy (writeAnswer_busy ..)
  have start : ({ r with queue := [] } : Reactor).Settled env := h.of_conn rfl
  unfold onAsync
  generalize groups r.queue = gs
  revert start
  generalize ({ r with queue := [] } : Reactor) = r₁
  induction gs generalizing r₁ with
  | nil => exact fun h => h
  | cons g gs ih => exact fun h => ih _ (each g r₁ h)

theorem settled_wsCloseConn {r : Reactor} (h : r.Settled env) (code : Nat) :
    (r.wsCloseConn env code).Settled env := by
  unfold wsCloseConn
  split
  · exact h
  · exact .of_busy rfl

theorem settled_sweepHttp {r : Reactor} (h : r.Settled env) : (r.sweepHttp env).Settled env := by
  have timeOut : ∀ id kind why, (r.timeOut env id kind why).Settled env := by
    intro id kind why
    unfold timeOut
    split
    · exact h
    · exact .of_busy (refuse_busy ..)
  unfold sweepHttp
  split
  · unfold sweepBusy
    split
    · exact h
    · split
      · exact timeOut _ _ _
      · split
        · exact timeOut _ _ _
        · split
          · exact .of_closing (closeConn_closing _)
          · exact h
  · unfold sweepIdle
    split
    · split
      · exact .of_busy (refuse_busy ..)
      · exact h
    · split
      · exact .of_closing (closeConn_closing _)
      · split
        · exact .of_closing (closeConn_closing _)
        · split
          · exact .of_closing (closeConn_closing _)
          · exact h

theorem settled_onSweep {r : Reactor} (h : r.Settled env) : (r.onSweep env).Settled env := by
  unfold onSweep
  split
  · exact h
  · split
    · exact .of_closing (closeConn_closing _)
    · dsimp only
      split
      · split
        · have aged : (r.setConn { r.conn with ageExpired := true }).Settled env :=
            h.congr rfl rfl rfl rfl rfl rfl rfl
          exact settled_wsCloseConn env aged 1001
        · unfold sweepWs
          split
          · exact h
          · split
            · exact settled_wsCloseConn env (r := r.broadcastEvent _ _ _) (h.of_conn rfl) 1001
            · split
              · exact .of_busy (writeAnswer_busy ..)
              · exact h
      · split
        · have aged : r.ageOut.Settled env := by
            unfold ageOut
            dsimp only
            split
            · split <;> exact h.congr rfl rfl rfl rfl rfl rfl rfl
            · exact h.congr rfl rfl rfl rfl rfl rfl rfl
          exact settled_sweepHttp env aged
        · exact settled_sweepHttp env h

/-- The answer calls do not touch the connection. -/
theorem respondWith_conn (r : Reactor) (id status : Nat) (headers : List Header) (body : Bytes)
    (n : Nat) : (r.respondWith env id status headers body n).conn = r.conn := by
  unfold respondWith
  split
  · rfl
  · split <;> rfl

theorem respondFile_conn (r : Reactor) (id status : Nat) (headers : List Header)
    (size : Option Nat) (offset length : Int) :
    (r.respondFile env id status headers size offset length).conn = r.conn := by
  unfold respondFile
  split
  · rfl
  · split
    · exact respondWith_conn ..
    · dsimp only
      split
      · exact respondWith_conn ..
      · split
        · rfl
        · split
          · exact respondWith_conn ..
          · rfl

theorem startStream_conn (r : Reactor) (id status : Nat) (headers : List Header) :
    (r.startStream env id status headers).conn = r.conn := by
  unfold startStream
  split
  · rfl
  · split
    · rfl
    · dsimp only
      split <;> rfl

theorem sendStreamChunk_conn (r : Reactor) (id : Nat) (chunk : Bytes) (last : Bool) :
    (r.sendStreamChunk id chunk last).conn = r.conn := by
  unfold sendStreamChunk
  split
  · rfl
  · split
    · rfl
    · split
      · rfl
      · dsimp only
        split <;> rfl

end Reactor

/-- What a read may do: an upload that ends behind an open gate leaves no request behind. -/
def resumesInTime (env : Env) (r : Reactor) : Act → Bool
  | .read data => !r.conn.streamingBody || r.conn.busy || r.restIdle env data
  | _ => true

open Reactor in
theorem settled_step {r r' : Reactor} {a : Act} (hwf : r.WF) (h : r.Settled env)
    (hok : resumesInTime env r a = true) (hstep : step env r a = some r') : r'.Settled env := by
  cases a with
  | read data =>
      simp only [step, Option.ite_none_right_eq_some, Option.some.injEq] at hstep
      obtain ⟨-, rfl⟩ := hstep
      refine settled_readCb env hwf fun streaming => ?_
      simpa [resumesInTime, streaming] using hok
  | readEnd =>
      simp only [step, Option.ite_none_right_eq_some, Option.some.injEq] at hstep
      obtain ⟨-, rfl⟩ := hstep
      unfold readEnd
      dsimp only
      split
      · exact .of_busy (refuse_busy ..)
      · exact .of_closing (closeConn_closing _)
  | written ok got =>
      simp only [step] at hstep
      split at hstep
      · cases hstep
      · simp only [Option.ite_none_left_eq_some, Option.some.injEq] at hstep
        obtain ⟨-, rfl⟩ := hstep
        exact settled_onWrite env h _ _ ok got
  | async =>
      cases hstep
      exact settled_onAsync env h
  | sweep =>
      simp only [step, Option.ite_none_left_eq_some, Option.some.injEq] at hstep
      obtain ⟨-, rfl⟩ := hstep
      exact settled_onSweep env h
  | closed =>
      simp only [step, Option.ite_none_right_eq_some, Option.some.injEq] at hstep
      obtain ⟨⟨shut, -⟩, rfl⟩ := hstep
      refine .of_closing ?_
      unfold onCloseConn
      dsimp only
      split <;> exact shut
  | respond id status headers body =>
      cases hstep
      exact h.of_conn (respondWith_conn ..)
  | respondFile id status headers size offset length =>
      cases hstep
      exact h.of_conn (respondFile_conn ..)
  | startStream id status headers =>
      cases hstep
      exact h.of_conn (startStream_conn ..)
  | sendStreamChunk id bytes last =>
      cases hstep
      exact h.of_conn (sendStreamChunk_conn ..)
  | wsSend payload binary compressed =>
      cases hstep
      unfold wsSend
      split <;> exact h.of_conn rfl
  | wsClose code =>
      cases hstep
      unfold wsClose
      split <;> exact h.of_conn rfl
  | tick ms | beginDrain | attach emitter | newId =>
      cases hstep
      exact h.of_conn rfl
  | tlsFlight cipher =>
      simp only [step, Option.ite_none_right_eq_some, Option.some.injEq] at hstep
      obtain ⟨-, rfl⟩ := hstep
      unfold tlsRawWrite
      split
      · exact h
      · exact h.congr rfl rfl rfl rfl rfl rfl rfl
  | otherRequest loc =>
      simp only [step, Option.ite_none_left_eq_some, Option.some.injEq] at hstep
      obtain ⟨-, rfl⟩ := hstep
      exact h.of_conn rfl
  | otherRetire id =>
      simp only [step] at hstep
      split at hstep
      · simp only [Option.ite_none_left_eq_some, Option.some.injEq] at hstep
        obtain ⟨-, rfl⟩ := hstep
        exact h.of_conn rfl
      · cases hstep
  | otherPush entry =>
      simp only [step, Option.ite_none_left_eq_some, Option.some.injEq] at hstep
      obtain ⟨-, rfl⟩ := hstep
      exact h.of_conn rfl

/-! ### Runs -/

/-- Nothing is left to wait for: the connection is not busy, not closing, in no upload, has
no write outstanding and nothing in the inbox, and is an HTTP/1.1 connection. -/
structure Reactor.Quiescent (r : Reactor) : Prop where
  busy : r.conn.busy = false
  closing : r.conn.closing = false
  streaming : r.conn.streamingBody = false
  writes : r.conn.writes = []
  queue : r.ownQueue = []
  http : r.conn.h2 = false

/-- No lost wakeup: a quiescent connection holds no request. -/
theorem no_lost_wakeup {r t : Reactor} (fresh : Fresh r)
    (run : Reaches (stepOf (step env)) (fun r a => resumesInTime env r a = true) r t)
    (quiescent : t.Quiescent) : t.idleBuffer env = true := by
  have start : r.WF ∧ r.Settled env := by
    refine ⟨fresh.wf, fun _ _ _ _ => ?_⟩
    have buf : r.conn.buf = [] := by
      rw [fresh.conn]
      rfl
    rw [Reactor.idleBuffer, buf]
    rfl
  have kept : t.WF ∧ t.Settled env := by
    refine Reaches.invariant (I := fun r => r.WF ∧ r.Settled env) start ?_ run
    rintro r a r' ⟨hwf, h⟩ hok hstep
    exact ⟨hwf.step env hstep, settled_step env hwf h hok hstep⟩
  exact kept.2 quiescent.busy quiescent.closing quiescent.streaming quiescent.http

/-- An upload ends before it is answered; the head of the next request has arrived in part. -/
def uploadFirst : List Act :=
  [.read (ascii "POST /up HTTP/1.1\r\nHost: a\r\nContent-Length: 2\r\n\r\n"),
    .read (ascii "abGET / HT"), .respond 1 200 [] [], .async, .written true []]

theorem no_lost_wakeup_uploadFirst :
    ∃ t, Reaches (stepOf (step sampleEnv)) (fun r a => resumesInTime sampleEnv r a = true)
        sampleConn t ∧ t.conn.buf = ascii "GET / HT" ∧ t.Quiescent ∧
      t.idleBuffer sampleEnv = true := by
  obtain ⟨t, ht, buf, busy, closing, streaming, writes, queue, http⟩ := exec_any
    (f := guarded (fun r a => resumesInTime sampleEnv r a = true) (step sampleEnv))
    (s := sampleConn) (p := fun t => t.conn.buf = ascii "GET / HT" ∧ t.conn.busy = false ∧
      t.conn.closing = false ∧ t.conn.streamingBody = false ∧ t.conn.writes = [] ∧
      t.ownQueue = [] ∧ t.conn.h2 = false)
    (show (exec _ uploadFirst _).any _ = true by
      rw [uploadFirst]
      repeat rw [ascii_ofList]
      decide +kernel)
  have quiescent : t.Quiescent := ⟨busy, closing, streaming, writes, queue, http⟩
  exact ⟨t, exec_guarded ht, buf, quiescent,
    no_lost_wakeup sampleEnv sampleConn_fresh (exec_guarded ht) quiescent⟩

/-- The answer lands before the upload is over; its last bytes come with a request. -/
def answerFirst : List Act :=
  [.read (ascii "POST /up HTTP/1.1\r\nHost: a\r\nContent-Length: 2\r\n\r\n"),
    .respond 1 200 [] [], .async, .written true [], .read (ascii "abGET / HTTP/1.0\r\n\r\n")]

theorem upload_end_forgets :
    ¬ ∀ (env : Env) (r t : Reactor), Fresh r → Reaches (stepOf (step env)) anyStep r t →
      t.Quiescent → t.idleBuffer env = true := by
  intro claim
  obtain ⟨t, ht, left, busy, closing, streaming, writes, queue, http⟩ := exec_any
    (f := step sampleEnv) (s := sampleConn)
    (p := fun t => t.idleBuffer sampleEnv = false ∧ t.conn.busy = false ∧
      t.conn.closing = false ∧ t.conn.streamingBody = false ∧ t.conn.writes = [] ∧
      t.ownQueue = [] ∧ t.conn.h2 = false)
    (show (exec _ answerFirst _).any _ = true by
      rw [answerFirst]
      repeat rw [ascii_ofList]
      decide +kernel)
  have idle := claim sampleEnv sampleConn t sampleConn_fresh (exec_reaches ht)
    ⟨busy, closing, streaming, writes, queue, http⟩
  simp [left] at idle

end NitroServer.Engine
