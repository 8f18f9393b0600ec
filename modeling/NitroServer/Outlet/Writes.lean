/-
The writes a connection has outstanding.

Everything the loop writes on a connection goes through `issueWrite`, the common tail of
`writeAnswer` and `writeRaw`, or through `tlsRawWrite`. `Writes env r r'` says that the
change from `r` to `r'` is made of non-empty `issueWrite` calls and of changes that touch
neither the outstanding writes nor what accounts for them (`Outlet`). Each function of the
engine has one lemma of this shape.

`turn` is the reactor's step with an HTTP/2 connection's traffic added. The session is
opaque here: what it hands to `writeRaw`, and whether the sweep finds it finished, come
with the action.
-/

import NitroServer.Lib.Run
import NitroServer.Engine.Loop

namespace NitroServer.Engine

open NitroServer.Lib

variable (env : Env)

/-! ### HTTP/2 traffic -/

/-- One thing that happens to a connection of either protocol. -/
inductive Turn where
  | act (a : Act)
  /-- ALPN picked `h2` on a TLS connection. -/
  | alpn
  /-- The session's sink: `pump` has bytes for the peer. -/
  | h2Write (bytes : Bytes)
  | h2Written (ok : Bool)
  /-- The sweep: what `goAway` and `sweep` make the session send, and whether the session
  is finished. -/
  | h2Sweep (bytes : Bytes) (finished : Bool)
deriving DecidableEq, Repr

/-- A piece the HTTP/2 session writes. -/
def h2Piece (bytes : Bytes) : Piece := ⟨.session, .raw, bytes⟩

namespace Reactor

/-- `onSweep` on an HTTP/2 connection. -/
def h2Sweep (r : Reactor) (bytes : Bytes) (finished : Bool) : Reactor :=
  if r.conn.closing then r
  else if 0 < r.conn.writePending ∧ r.elapsed r.conn.writeStartedAt (writeMs env) then
    (r.broadcastEvent .clientError r.conn.id "write timed out").closeConn
  else
    let r := r.writeRaw env (h2Piece bytes)
    if finished then r.closeConn else r

end Reactor

/-- One step of a connection of either protocol. -/
def turn (r : Reactor) : Turn → Option Reactor
  | .act a => step env r a
  | .alpn =>
      if r.reading ∧ r.conn.tls ∧ r.conn.buf = [] ∧ r.conn.served = 0 ∧ ¬ r.conn.busy then
        some (r.setConn { r.conn with h2 := true })
      else none
  | .h2Write bytes =>
      if r.conn.h2 ∧ ¬ r.gone then some (r.writeRaw env (h2Piece bytes)) else none
  | .h2Written ok =>
      match r.conn.writes with
      | [] => none
      | w :: rest => if r.conn.h2 ∧ ¬ r.gone then some (r.onWrite env w rest ok []) else none
  | .h2Sweep bytes finished =>
      if r.conn.h2 ∧ ¬ r.gone then some (r.h2Sweep env bytes finished) else none

/-! ### Issued writes -/

/-- The outstanding writes of a connection and what accounts for them, with the inbox, the
clock and the drain flag. -/
structure Outlet where
  id : Nat
  tls : Bool
  writes : List WriteCtx
  pending : Nat
  startedAt : Nat
  clock : Nat
  queue : List Pending
  draining : Bool

def Reactor.outlet (r : Reactor) : Outlet where
  id := r.conn.id
  tls := r.conn.tls
  writes := r.conn.writes
  pending := r.conn.writePending
  startedAt := r.conn.writeStartedAt
  clock := r.clock
  queue := r.queue
  draining := r.draining

/-- From `r` to `r'` by issuing writes. -/
inductive Writes : Reactor → Reactor → Prop where
  | aside {r r' : Reactor} (same : r'.outlet = r.outlet) : Writes r r'
  | issue {r : Reactor} {ps : List Piece} {ka fin : Bool} (bytes : payloadBytes ps ≠ []) :
      Writes r (r.issueWrite env ps ka fin)
  | trans {r r' r'' : Reactor} : Writes r r' → Writes r' r'' → Writes r r''

namespace Writes

theorem refl (r : Reactor) : Writes env r r := .aside rfl

end Writes

namespace Reactor

variable {env} {r : Reactor}

theorem writes_closeConn : Writes env r r.closeConn := by
  unfold closeConn
  split
  · exact .refl env r
  · exact .aside rfl

theorem writes_emitTo {sink : Option Nat} {evs : Nat → List Ev} :
    Writes env r (r.emitTo sink evs) :=
  .aside rfl

theorem writes_startAnswer {ps : List Piece} {ka fin : Bool} (bytes : payloadBytes ps ≠ []) :
    Writes env r (r.startAnswer env ps ka fin) := by
  have marked : Writes env r (r.setConn { r.conn with
      busy := true, hasDeadline := false, responseStarted := true, lastWriteAt := r.clock }) :=
    .aside rfl
  exact marked.trans (.issue bytes)

theorem payload_one {p : Piece} (h : p.bytes ≠ []) : payloadBytes [p] ≠ [] := by
  simpa [payloadBytes] using h

theorem encodeFrame_ne_nil (opcode : Nat) (payload : Bytes) (fin : Bool) :
    Ws.encodeFrame opcode payload fin ≠ [] := by
  simp only [Ws.encodeFrame]
  split_ifs <;> simp

theorem uvBuildHead_ne_nil (date : Bytes) (status : Nat) (headers : List Header) (n : Nat)
    (ka : Bool) (secs : Option Nat) : uvBuildHead date status headers n ka secs ≠ [] := by
  simp [uvBuildHead, statusLine, ascii]

theorem writes_wsCloseConn (code : Nat) : Writes env r (r.wsCloseConn env code) := by
  unfold wsCloseConn
  split
  · exact .refl env r
  · dsimp only
    refine Writes.trans ?_ (writes_startAnswer ?_)
    · exact .aside rfl
    · refine payload_one ?_
      dsimp only
      exact encodeFrame_ne_nil _ _ _

theorem writes_writeAnswer {ps : List Piece} {ka fin : Bool} (bytes : payloadBytes ps ≠ []) :
    Writes env r (r.writeAnswer env ps ka fin) := by
  unfold writeAnswer
  dsimp only
  split
  · exact (writes_startAnswer bytes).trans (writes_wsCloseConn 1009)
  · split
    · have told : Writes env r ((r.startAnswer env ps ka fin).broadcastEvent .clientError
          (r.startAnswer env ps ka fin).conn.id "stream buffer limit exceeded") :=
        (writes_startAnswer bytes).trans (.aside rfl)
      exact told.trans writes_closeConn
    · exact writes_startAnswer bytes

theorem writes_writeRaw (p : Piece) : Writes env r (r.writeRaw env p) := by
  unfold writeRaw
  split
  · exact .refl env r
  · rename_i some
    exact .issue (payload_one some)

theorem writes_refuse (origin : Origin) (status : Nat) :
    Writes env r (r.refuse env origin status) :=
  writes_writeAnswer (payload_one (uvBuildHead_ne_nil _ _ _ _ _ _))

theorem writes_refuseText (status : Nat) (msg : String) (extra : List Header) :
    Writes env r (r.refuseText env status msg extra) := by
  refine writes_writeAnswer (payload_one ?_)
  simp [uvErrorResponse, uvBuildHead_ne_nil]

theorem outlet_retireReq (r : Reactor) (id : Nat) : (r.retireReq id).outlet = r.outlet := by
  unfold retireReq
  split <;> rfl

/-! ### Uploads -/

theorem writes_emitDecoded (out : Bytes) : Writes env r (r.emitDecoded out) := by
  unfold emitDecoded
  split
  · exact .refl env r
  · exact .aside rfl

theorem writes_endStream : Writes env r r.endStream := .aside rfl

theorem writes_takeStreamBytes : Writes env r r.takeStreamBytes := by
  unfold takeStreamBytes
  dsimp only
  split
  · exact .aside rfl
  · exact .refl env r

theorem writes_emitStreamBytes : Writes env r r.emitStreamBytes := by
  unfold emitStreamBytes
  split
  · exact writes_takeStreamBytes.trans writes_endStream
  · exact writes_takeStreamBytes

theorem writes_abortStreamTooLarge : Writes env r (r.abortStreamTooLarge env) := by
  unfold abortStreamTooLarge
  dsimp only
  have ended : Writes env r
      ((r.setConn { r.conn with streamingBody := false }).retireReq r.conn.streamReqId) :=
    .aside (outlet_retireReq ..)
  exact (ended.trans writes_emitTo).trans (writes_refuse ..)

theorem writes_emitStreamChunked : Writes env r (r.emitStreamChunked env) := by
  unfold emitStreamChunked
  obtain ⟨stop, s⟩ := scanChunks r.conn.streamMaxBody (r.conn.buf.length + 1) r.chunkScan
  dsimp only
  have scanned : Writes env r (r.setConn { r.conn with
      buf := s.buf, chunkRemaining := s.remaining, chunkNeedCrlf := s.needCrlf,
      streamBodyTotal := s.total }) := .aside rfl
  cases stop with
  | tooLarge => exact scanned.trans writes_abortStreamTooLarge
  | malformed =>
      refine scanned.trans (Writes.trans ?_ writes_closeConn)
      exact .aside rfl
  | more => exact scanned.trans (writes_emitDecoded s.out)
  | done => exact (scanned.trans (writes_emitDecoded s.out)).trans writes_endStream

theorem writes_emitStream : Writes env r (r.emitStream env) := by
  unfold emitStream
  split
  · exact writes_emitStreamChunked
  · exact writes_emitStreamBytes

theorem writes_refuseBusyBuffer : Writes env r (r.refuseBusyBuffer env) := by
  refine Writes.trans ?_ (writes_refuse .guard 400)
  exact .aside rfl

/-! ### Sessions -/

theorem writes_wsReassembled (fin : Bool) (opcode : Nat) :
    Writes env r (r.wsReassembled env fin opcode).1 := by
  unfold wsReassembled
  split
  · exact writes_wsCloseConn 1009
  · split
    · exact .refl env r
    · split
      · exact writes_wsCloseConn 1007
      · exact .aside rfl

theorem writes_wsData (h : Ws.FrameHeader) (payload : Bytes) :
    Writes env r (r.wsData env h payload).1 := by
  unfold wsData
  split <;> split
  · exact writes_wsCloseConn 1002
  · refine Writes.trans ?_ (writes_wsReassembled _ _)
    exact .aside rfl
  · exact writes_wsCloseConn 1002
  · refine Writes.trans ?_ (writes_wsReassembled _ _)
    exact .aside rfl

theorem writes_wsHandle (h : Ws.FrameHeader) (payload : Bytes) :
    Writes env r (r.wsHandle env h payload).1 := by
  unfold wsHandle
  split
  · exact writes_writeAnswer (payload_one (encodeFrame_ne_nil _ _ _))
  · split
    · exact .refl env r
    · split
      · exact writes_wsCloseConn _
      · exact writes_wsData h payload

theorem writes_wsFrame : Writes env r (r.wsFrame env).1 := by
  unfold wsFrame
  split
  · split
    · exact writes_wsCloseConn 1002
    · split
      · exact writes_wsCloseConn 1002
      · split
        · exact .refl env r
        · split
          · exact writes_wsCloseConn 1009
          · split
            · exact .refl env r
            · refine Writes.trans ?_ (writes_wsHandle _ _)
              exact .aside rfl
  · exact .refl env r

theorem writes_wsFrames (fuel : Nat) : Writes env r (r.wsFrames env fuel) := by
  induction fuel generalizing r with
  | zero => exact .refl env r
  | succ fuel ih =>
      unfold wsFrames
      split
      · exact .refl env r
      · have first : Writes env r (r.wsFrame env).1 := writes_wsFrame
        split
        · rename_i r' heq
          rw [heq] at first
          exact first.trans ih
        · rename_i r' heq
          rw [heq] at first
          exact first

theorem writes_wsOpen (head : ParsedHead) (route : RouteEntry) (params : List RouteParam)
    (path query key : Bytes) (protocol : Option Bytes) :
    Writes env r (r.wsOpen env head route params path query key protocol) := by
  have shake : ∀ deflate, payloadBytes [⟨.session, .whole, wsShake key deflate protocol⟩] ≠ [] :=
    fun deflate => payload_one fun empty => by
      simpa [crlf] using (List.append_eq_nil_iff.mp empty).2
  have shaken : ∀ deflate, Writes env r (((r.setConn { r.conn with deflate }).log [.upgrade])
      |>.writeAnswer env [⟨.session, .whole, wsShake key deflate protocol⟩] true false) :=
    fun deflate => by
      refine Writes.trans ?_ (writes_writeAnswer (shake deflate))
      exact .aside rfl
  refine Writes.trans ?_ (writes_wsFrames _)
  refine (shaken (env.cfg.wsCompression && (uvFindHeader head.headers
    "sec-websocket-extensions").any fun e => (findSub (ascii "permessage-deflate") e.value).isSome))
    |>.trans ?_
  exact .aside rfl

theorem writes_wsHandshake (head : ParsedHead) (route : RouteEntry) (params : List RouteParam)
    (path query : Bytes) : Writes env r (r.wsHandshake env head route params path query) := by
  unfold wsHandshake
  split
  · exact writes_refuse ..
  · split
    · exact writes_refuse ..
    · split
      · exact writes_refuseText ..
      · split
        · exact writes_wsOpen ..
        · split
          · exact writes_wsOpen ..
          · split
            · exact writes_wsOpen ..
            · split
              · exact writes_refuse ..
              · exact writes_wsOpen ..

/-! ### Requests -/

theorem writes_serverBusy : Writes env r (r.serverBusy env) := writes_refuseText ..

theorem writes_dispatchStream (q : Request) (route : RouteEntry) (params : List RouteParam)
    (bodyStart : Nat) : Writes env r (r.dispatchStream env q route params bodyStart) := by
  unfold dispatchStream
  split
  · refine Writes.trans ?_ writes_serverBusy
    exact .aside rfl
  · dsimp only
    refine Writes.trans ?_ writes_emitStream
    exact .aside rfl

theorem writes_answerRequest (q : Request) (ka : Bool) (body : Bytes) :
    Writes env r (r.answerRequest env q ka body).1 := by
  unfold answerRequest
  dsimp only
  split
  · split
    · exact writes_refuseText ..
    · split <;> exact writes_writeAnswer (payload_one (uvBuildHead_ne_nil _ _ _ _ _ _))
  · split
    · split
      · exact writes_refuseText ..
      · split
        · exact writes_refuse ..
        · exact writes_wsHandshake ..
    · split
      · exact writes_refuseText ..
      · split
        · refine writes_writeAnswer (payload_one ?_)
          simp [uvBuildHead_ne_nil]
        · split
          · exact writes_serverBusy
          · exact .aside rfl

theorem writes_sendContinue (q : Request) : Writes env r (r.sendContinue env q) := by
  unfold sendContinue
  split
  · split
    · refine Writes.trans ?_ (writes_writeRaw _)
      exact .aside rfl
    · exact .aside rfl
  · exact .refl env r

theorem writes_processRequest (q : Request) (bodyStart : Nat) :
    Writes env r (r.processRequest env q bodyStart).1 := by
  unfold processRequest
  split
  · exact writes_refuse ..
  · dsimp only
    refine (writes_sendContinue q).trans ?_
    split
    · exact writes_dispatchStream ..
    · split
      · exact .aside rfl
      · exact writes_refuse ..
      · refine Writes.trans ?_ (writes_answerRequest _ _ _)
        exact .aside rfl

theorem writes_awaitHead : Writes env r r.awaitHead := by
  unfold awaitHead
  split
  · exact writes_closeConn
  · split
    · exact .aside rfl
    · exact .refl env r

theorem writes_processHead : Writes env r (r.processHead env).1 := by
  unfold processHead
  split
  · exact writes_awaitHead
  · dsimp only
    have seen : Writes env r (r.setConn { r.conn with headPending := false }) := .aside rfl
    split
    · exact seen.trans (writes_refuse ..)
    · split
      · exact seen.trans (writes_refuse ..)
      · exact seen.trans (writes_processRequest ..)

theorem writes_processConn : Writes env r (r.processConn env) := by
  unfold processConn
  split
  · exact .refl env r
  · split
    · exact .refl env r
    · split
      · split
        · exact .refl env r
        · exact .aside rfl
      · rw [processLoop_succ]
        split
        · exact .refl env r
        · exact writes_processHead

theorem writes_readCb (data : Bytes) : Writes env r (r.readCb env data) := by
  have received : Writes env r (r.received data) := .aside rfl
  unfold readCb
  dsimp only
  split
  · exact received.trans writes_refuseBusyBuffer
  · split
    · exact received.trans writes_emitStream
    · split
      · exact received.trans (writes_wsFrames _)
      · exact received.trans writes_processConn

theorem writes_readEnd : Writes env r (r.readEnd env) := by
  have ended : Writes env r (r.setConn { r.conn with eof := true }) := .aside rfl
  unfold readEnd
  dsimp only
  split
  · exact ended.trans (writes_refuse ..)
  · exact ended.trans writes_closeConn

/-! ### Completions, the inbox and the timer -/

theorem writes_continueFileSend (got : Bytes) : Writes env r (r.continueFileSend env got) := by
  unfold continueFileSend
  split
  · exact .refl env r
  · split
    · exact .refl env r
    · dsimp only
      split
      · refine Writes.trans ?_ writes_closeConn
        exact .aside rfl
      · rename_i some
        refine Writes.trans ?_ (writes_writeAnswer (payload_one some))
        exact .aside rfl

theorem writes_onFinished (ka : Bool) : Writes env r (r.onFinished env ka) := by
  unfold onFinished
  split
  · refine Writes.trans ?_ writes_closeConn
    exact .aside rfl
  · refine Writes.trans ?_ writes_processConn
    exact .aside rfl

/-- What follows the accounting of a completed write. -/
theorem writes_onWrite (w : WriteCtx) (rest : List WriteCtx) (ok : Bool) (got : Bytes) :
    Writes env (r.writeDone w rest) (r.onWrite env w rest ok got) := by
  unfold onWrite
  dsimp only
  split
  · exact writes_closeConn
  · split
    · split
      · exact writes_continueFileSend got
      · exact .refl env _
    · exact writes_onFinished _

theorem writes_writeGroup (g : Pending × List Pending)
    (bytes : g.1.connId = r.conn.id → g.1.piece.bytes ≠ []) :
    Writes env r (r.writeGroup env g) := by
  unfold writeGroup
  split
  · exact .refl env r
  · rename_i live
    have some : g.1.piece.bytes ≠ [] := bytes (by
      by_contra other
      exact live (.inl other))
    split
    · refine Writes.trans ?_ (writes_writeAnswer (payload_one some))
      exact .aside rfl
    · refine writes_writeAnswer ?_
      simp [payloadBytes, some]

theorem writes_sweepWs : Writes env r (r.sweepWs env) := by
  unfold sweepWs
  split
  · exact .refl env r
  · split
    · refine Writes.trans ?_ (writes_wsCloseConn 1001)
      exact .aside rfl
    · split
      · have pinged : Writes env r (r.writeAnswer env
            [⟨.session, .raw, Ws.encodeFrame Ws.kPing [] true⟩] true false) :=
          writes_writeAnswer (payload_one (by
            dsimp only
            exact encodeFrame_ne_nil _ _ _))
        exact pinged.trans (.aside rfl)
      · exact .refl env r

theorem writes_timeOut (id : Nat) (kind : ServerEventKind) (why : String) :
    Writes env r (r.timeOut env id kind why) := by
  unfold timeOut
  split
  · exact .refl env r
  · dsimp only
    have retired : Writes env r ((r.eraseReq id).setConn { (r.eraseReq id).conn with
        hasDeadline := false, reqIdInFlight := none, streamingBody := false }) := .aside rfl
    exact (retired.trans (writes_refuse ..)).trans (.aside rfl)

theorem writes_streamIdle (id : Nat) : Writes env r (r.streamIdle id) := by
  unfold streamIdle
  dsimp only
  refine Writes.trans ?_ writes_closeConn
  exact .aside (outlet_retireReq r id)

theorem writes_sweepBusy : Writes env r (r.sweepBusy env) := by
  unfold sweepBusy
  split
  · exact .refl env r
  · split
    · exact writes_timeOut ..
    · split
      · exact writes_timeOut ..
      · split
        · exact writes_streamIdle _
        · exact .refl env r

theorem writes_sweepIdle : Writes env r (r.sweepIdle env) := by
  have told : ∀ why, Writes env r (r.broadcastEvent .clientError r.conn.id why) :=
    fun _ => .aside rfl
  unfold sweepIdle
  split
  · split
    · exact (told _).trans (writes_refuse ..)
    · exact .refl env r
  · split
    · exact (told _).trans writes_closeConn
    · split
      · exact writes_closeConn
      · split
        · exact writes_closeConn
        · exact .refl env r

theorem writes_sweepHttp : Writes env r (r.sweepHttp env) := by
  unfold sweepHttp
  split
  · exact writes_sweepBusy
  · exact writes_sweepIdle

theorem writes_ageOut : Writes env r r.ageOut := by
  unfold ageOut
  dsimp only
  split
  · split <;> exact .aside rfl
  · exact .aside rfl

theorem writes_onSweep : Writes env r (r.onSweep env) := by
  unfold onSweep
  split
  · exact .refl env r
  · split
    · refine Writes.trans ?_ writes_closeConn
      exact .aside rfl
    · dsimp only
      split
      · split
        · refine Writes.trans ?_ (writes_wsCloseConn 1001)
          exact .aside rfl
        · exact writes_sweepWs
      · split
        · exact writes_ageOut.trans writes_sweepHttp
        · exact writes_sweepHttp

theorem writes_h2Sweep (bytes : Bytes) (finished : Bool) :
    Writes env r (r.h2Sweep env bytes finished) := by
  unfold h2Sweep
  split
  · exact .refl env r
  · split
    · refine Writes.trans ?_ writes_closeConn
      exact .aside rfl
    · dsimp only
      split
      · exact (writes_writeRaw _).trans writes_closeConn
      · exact writes_writeRaw _

end Reactor

end NitroServer.Engine
