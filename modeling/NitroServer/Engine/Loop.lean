/-
The loop callbacks and the answer calls of `UvReactor.cpp`, and the reactor as a
transition system.

* `readCb` / `readEnd` — inbound bytes and the end of the stream.
* `onWrite` — a `uv_write` completed; writes complete in the order they were issued.
* `respond`, `respondFile`, `startStream`, `sendStreamChunk` — the runner's answer
  calls, from any thread; each is one step.
* `onAsync` — the inbox is drained and consecutive pieces of a connection coalesced.
* `onSweep` — the timer, as it treats this connection.
* `onCloseConn` — the handle is closed.

`step` performs one of these, or what other threads and connections do to the
shared tables. It refuses what cannot happen: a read on a closing handle, a
completion with no write outstanding, a close callback before the last completion.
What the file system says (the size of a file, the bytes of a read) comes with the
action. Listening, admission, the PROXY header and the TLS handshake stand before
the first byte a connection's parser sees, and are not followed.
-/

import NitroServer.Engine.Process

namespace NitroServer.Engine

open NitroServer.Lib

variable (env : Env)

namespace Reactor

/-! ### Reads -/

/-- Progress on the wire: the bytes join the buffer. -/
def received (r : Reactor) (data : Bytes) : Reactor :=
  r.setConn { r.conn with lastActive := r.clock, wsPingSent := false, buf := r.conn.buf ++ data }

/-- `readCb` with data: append, guard, and hand the buffer to its owner. -/
def readCb (r : Reactor) (data : Bytes) : Reactor :=
  let r := r.received data
  if r.busyBufferFull env then r.refuseBusyBuffer env
  else if r.conn.streamingBody then r.emitStream env
  else if r.conn.ws then r.wsProcess env
  else r.processConn env

/-- `readCb` at the end of the stream: a truncated request is a 400. -/
def readEnd (r : Reactor) : Reactor :=
  let r := r.setConn { r.conn with eof := true }
  if ¬ r.conn.busy ∧ ¬ r.conn.ws ∧ ¬ r.conn.tls ∧ (findSub crlf2 r.conn.buf).isSome then
    r.refuse env .engine 400
  else r.closeConn

/-! ### Write completions -/

def kChunk : Nat := 256 * 1024

/-- `continueFileSend`; `got` is what the read returned, cut to the size asked for. -/
def continueFileSend (r : Reactor) (got : Bytes) : Reactor :=
  match r.conn.file with
  | none => r
  | some f =>
      if r.conn.closing then r
      else
        let chunk := got.take (min kChunk f.remaining)
        if chunk = [] then
          ((r.setConn { r.conn with file := none }).broadcastEvent .clientError r.conn.id
            "file answer truncated").closeConn
        else
          let left := f.remaining - chunk.length
          let file := if left = 0 then none
            else some { f with offset := f.offset + chunk.length, remaining := left }
          (r.setConn { r.conn with file }).writeAnswer env
            [⟨.request f.requestId, if left = 0 then .last else .chunk, chunk⟩]
            f.keepAlive (decide (left = 0))

/-- The request of a finishing write is over. -/
def requestOver (r : Reactor) : Reactor :=
  r.setConn { r.conn with
    served := r.conn.served + 1
    hasDeadline := false
    responseStarted := false
    reqIdInFlight := none
    continueSent := false
    lastActive := r.clock }

/-- The gate opens for the next request. -/
def reopen (r : Reactor) : Reactor := r.setConn { r.conn with busy := false }

/-- A finishing write landed. -/
def onFinished (r : Reactor) (keepAlive : Bool) : Reactor :=
  if ¬ keepAlive ∨ r.conn.closing then r.requestOver.closeConn
  else r.requestOver.reopen.processConn env

/-- The oldest outstanding write is accounted for. -/
def writeDone (r : Reactor) (w : WriteCtx) (rest : List WriteCtx) : Reactor :=
  r.setConn { r.conn with writePending := r.conn.writePending - w.size, writes := rest }

/-- `onWrite` for the oldest outstanding write; `got` is the file read it may cause. -/
def onWrite (r : Reactor) (w : WriteCtx) (rest : List WriteCtx) (ok : Bool) (got : Bytes) :
    Reactor :=
  let r := r.writeDone w rest
  if !ok then r.closeConn
  else if !w.finish then
    if r.conn.file.isSome ∧ r.conn.writePending = 0 then r.continueFileSend env got else r
  else r.onFinished env w.keepAlive

/-! ### Answer calls -/

/-- `respond`; `bodyLen` may exceed the bytes at hand for a HEAD answer. -/
def respondWith (r : Reactor) (id status : Nat) (headers : List Header) (body : Bytes)
    (bodyLen : Nat) : Reactor :=
  if ¬ r.running then r
  else match r.findReq id with
    | none => r
    | some loc =>
        let out := uvBuildHead (r.date env) status headers bodyLen loc.keepAlive
            env.cfg.keepAliveHeaderSecs ++
          (if !loc.isHead && !bodyless status then body else [])
        (r.eraseReq id).pushWrite ⟨loc.connId, ⟨.request id, .whole, out⟩, loc.keepAlive, true,
          none⟩

def respond (r : Reactor) (id status : Nat) (headers : List Header) (body : Bytes) : Reactor :=
  r.respondWith env id status headers body body.length

/-- The 404 of `respondFile`. -/
def respondNotFound (r : Reactor) (id : Nat) : Reactor :=
  r.respond env id 404 [⟨ascii "Content-Type", ascii "text/plain"⟩] (ascii "not found")

/-- The number of bytes of the range; a negative length reaches to the end. The end is a sum
of `int64_t` values, and one that is too large wraps around. -/
def rangeLength (size offset : Nat) (length : Int) : Nat :=
  let sum := (offset + length).bmod (2 ^ 64)
  let end_ := if length < 0 then (size : Int) else min (size : Int) sum
  (end_ - offset).toNat

/-- `respondFile`; `size` is the size of the regular file at the path, if there is one. -/
def respondFile (r : Reactor) (id status : Nat) (headers : List Header) (size : Option Nat)
    (offset length : Int) : Reactor :=
  if ¬ r.running then r
  else match size with
    | none => r.respondNotFound env id
    | some size =>
        let offset := offset.toNat
        if size < offset then r.respondNotFound env id
        else
          let n := rangeLength size offset length
          match r.findReq id with
          | none => r
          | some loc =>
              if loc.isHead ∨ n = 0 then
                r.respondWith env id status headers [] (if loc.isHead then n else 0)
              else
                let head := uvBuildHead (r.date env) status headers n loc.keepAlive
                  env.cfg.keepAliveHeaderSecs
                (r.eraseReq id).pushWrite ⟨loc.connId, ⟨.request id, .head, head⟩,
                  loc.keepAlive, false, some ⟨id, offset, n, loc.keepAlive⟩⟩

/-- `startStream`: the chunked head; a HEAD request is over with it. -/
def startStream (r : Reactor) (id status : Nat) (headers : List Header) : Reactor :=
  if ¬ r.running then r
  else match r.findReq id with
    | none => r
    | some loc =>
        let out := uvBuildStreamHead (r.date env) status headers loc.keepAlive
          env.cfg.keepAliveHeaderSecs
        if loc.isHead then
          (r.pushWrite ⟨loc.connId, ⟨.request id, .whole, out⟩, loc.keepAlive, true, none⟩)
            |>.eraseReq id
        else r.pushWrite ⟨loc.connId, ⟨.request id, .head, out⟩, loc.keepAlive, false, none⟩

/-- `%zx`. -/
def hexLower (n : Nat) : Bytes := ascii (String.ofList (Nat.toDigits 16 n))

/-- The bytes of one chunk call. -/
def chunkFrame (chunk : Bytes) (last : Bool) : Bytes :=
  (if chunk = [] then [] else hexLower chunk.length ++ crlf ++ chunk ++ crlf) ++
    (if last then ascii "0\r\n\r\n" else [])

/-- `sendStreamChunk`. -/
def sendStreamChunk (r : Reactor) (id : Nat) (chunk : Bytes) (last : Bool) : Reactor :=
  if ¬ r.running then r
  else if chunk = [] ∧ ¬ last then r
  else match r.findReq id with
    | none => r
    | some loc =>
        let out := chunkFrame chunk last
        if last then
          (r.eraseReq id).pushWrite
            ⟨loc.connId, ⟨.request id, .last, out⟩, loc.keepAlive, true, none⟩
        else r.pushWrite ⟨loc.connId, ⟨.request id, .chunk, out⟩, loc.keepAlive, false, none⟩

/-! ### The inbox -/

/-- The batch as the writes take it: a file entry alone, otherwise the entries of one
connection in a row up to the first that finishes. -/
def groups : List Pending → List (Pending × List Pending)
  | [] => []
  | e :: rest =>
      match groups rest with
      | (next, more) :: later =>
          if e.file.isNone ∧ ¬ e.finish ∧ next.connId = e.connId ∧ next.file.isNone then
            (e, next :: more) :: later
          else (e, []) :: (next, more) :: later
      | [] => [(e, [])]

/-- Write one group, when its connection is this one and still open. A file entry
writes its head; its chunks follow as writes land. -/
def writeGroup (r : Reactor) (g : Pending × List Pending) : Reactor :=
  if g.1.connId ≠ r.conn.id ∨ r.gone ∨ r.conn.closing then r
  else match g.1.file with
    | some f =>
        (r.setConn { r.conn with file := some f }).writeAnswer env [g.1.piece] g.1.keepAlive
          false
    | none =>
        let last := (g.1 :: g.2).getLast (List.cons_ne_nil _ _)
        r.writeAnswer env ((g.1 :: g.2).map Pending.piece) last.keepAlive last.finish

/-- `onAsync`. -/
def onAsync (r : Reactor) : Reactor :=
  (groups r.queue).foldl (writeGroup env) { r with queue := [] }

/-! ### The timer -/

/-- At least `ms` milliseconds have passed. -/
def elapsed (r : Reactor) (since : Nat) (ms : Int) : Bool :=
  decide (ms ≤ (r.clock : Int) - since)

def writeMs : Int := if 0 < env.cfg.writeTimeoutMs then env.cfg.writeTimeoutMs else 30000

/-- The window for a body that stopped arriving. -/
def bodyMs : Int :=
  if 0 < env.cfg.bodyTimeoutMs then env.cfg.bodyTimeoutMs else env.cfg.keepAliveTimeoutMs

/-- The answer in flight is told to close. -/
def flipKeepAlive (r : Reactor) (id : Nat) : Reactor :=
  { r with reqLoc := r.reqLoc.map fun e =>
      if e.1 = id then (e.1, { e.2 with keepAlive := false }) else e }

/-- The connection's hard lifetime is over: a session is told 1001. -/
def ageOutWs (r : Reactor) : Reactor :=
  (r.setConn { r.conn with ageExpired := true }).wsCloseConn env 1001

/-- The connection's hard lifetime is over: HTTP closes after its current answer. -/
def ageOut (r : Reactor) : Reactor :=
  let r := r.setConn { r.conn with ageExpired := true }
  match r.conn.reqIdInFlight with
  | some id => if r.conn.busy then r.flipKeepAlive id else r
  | none => r

/-- WebSocket liveness: ping at half the window, 1001 at the whole one. -/
def sweepWs (r : Reactor) : Reactor :=
  if env.cfg.wsIdleTimeoutMs ≤ 0 then r
  else if r.elapsed r.conn.lastActive env.cfg.wsIdleTimeoutMs then
    (r.broadcastEvent .clientError r.conn.id "websocket idle timeout").wsCloseConn env 1001
  else if ¬ r.conn.wsPingSent ∧ r.elapsed r.conn.lastActive (env.cfg.wsIdleTimeoutMs / 2) then
    let r := r.writeAnswer env [⟨.session, .raw, Ws.encodeFrame Ws.kPing [] true⟩] true false
    r.setConn { r.conn with wsPingSent := true }
  else r

/-- A dispatched request past its deadline, or an upload that stalled: 408 and close. -/
def timeOut (r : Reactor) (id : Nat) (kind : ServerEventKind) (why : String) : Reactor :=
  if (r.findReq id).isNone then r
  else
    let r := r.eraseReq id
    let r := r.setConn { r.conn with
      hasDeadline := false, reqIdInFlight := none, streamingBody := false }
    (r.refuse env (.request id) 408).broadcastEvent kind id why

/-- A streaming answer that went silent: close. -/
def streamIdle (r : Reactor) (id : Nat) : Reactor :=
  let r := (r.retireReq id).broadcastEvent .clientError id "stream idle timeout"
  (r.setConn { r.conn with reqIdInFlight := none, responseStarted := false }).closeConn

/-- The sweep of a busy connection. -/
def sweepBusy (r : Reactor) : Reactor :=
  match r.conn.reqIdInFlight with
  | none => r
  | some id =>
      if r.conn.hasDeadline ∧ r.conn.reqDeadline ≤ r.clock then
        r.timeOut env id .handlerTimeout "handler timed out"
      else if r.conn.streamingBody ∧ 0 < bodyMs env ∧ r.elapsed r.conn.lastActive (bodyMs env) then
        r.timeOut env id .clientError "request body timed out"
      else if r.conn.responseStarted ∧ r.conn.writePending = 0 ∧
          0 < env.cfg.streamIdleTimeoutMs ∧
          r.elapsed r.conn.lastWriteAt env.cfg.streamIdleTimeoutMs then
        r.streamIdle id
      else r

/-- How long a connection may be idle. -/
def idleMs (r : Reactor) : Int :=
  if r.conn.served = 0 ∧ 0 < env.cfg.headerTimeoutMs then env.cfg.headerTimeoutMs
  else env.cfg.keepAliveTimeoutMs

/-- The sweep of a connection that waits for bytes. -/
def sweepIdle (r : Reactor) : Reactor :=
  if r.conn.bodyPending then
    if 0 < bodyMs env ∧ r.elapsed r.conn.lastActive (bodyMs env) then
      (r.broadcastEvent .clientError r.conn.id "request body timed out").refuse env .engine 408
    else r
  else if 0 < env.cfg.headerTimeoutMs ∧ r.conn.headPending ∧
      r.elapsed r.conn.headStartedAt env.cfg.headerTimeoutMs then
    (r.broadcastEvent .clientError r.conn.id "request head timed out").closeConn
  else if r.conn.ageExpired then r.closeConn
  else if 0 < r.idleMs env ∧ r.elapsed r.conn.lastActive (r.idleMs env) then r.closeConn
  else r

/-- The sweep of an HTTP/1.1 connection, its age aside. -/
def sweepHttp (r : Reactor) : Reactor :=
  if r.conn.busy then r.sweepBusy env else r.sweepIdle env

/-- `onSweep`, for this connection. -/
def onSweep (r : Reactor) : Reactor :=
  if r.conn.closing then r
  else if 0 < r.conn.writePending ∧ r.elapsed r.conn.writeStartedAt (writeMs env) then
    (r.broadcastEvent .clientError r.conn.id "write timed out").closeConn
  else
    let aged := decide (0 < env.cfg.maxConnectionAgeMs) && !r.conn.ageExpired &&
      r.elapsed r.conn.openedAt env.cfg.maxConnectionAgeMs
    if r.conn.ws then if aged then r.ageOutWs env else r.sweepWs env
    else if aged then r.ageOut.sweepHttp env
    else r.sweepHttp env

/-! ### The close callback -/

/-- `onCloseConn`: what the connection still held is released, and the runner hears
of every request that loses its client. -/
def onCloseConn (r : Reactor) : Reactor :=
  let r := { r with gone := true, conn := { r.conn with file := none } }
  if r.conn.ws then
    { r with
      wsConnLoop := r.wsConnLoop.filter (· ≠ r.conn.id)
      trace := r.trace ++ [.drop r.conn.id] }
  else
    let dropped := (r.reqLoc.filter fun e => e.2.connId == r.conn.id).map Prod.fst
    { r with
      reqLoc := r.reqLoc.filter fun e => e.2.connId != r.conn.id
      trace := r.trace ++ dropped.map Ev.erase ++
        dropped.map fun id => .emitEvent .clientDisconnect id "" }

end Reactor

/-! ### The transition system -/

/-- What can happen next. `written` carries the outcome of the oldest outstanding
write and the file read it may cause; `attach` is `nextEmitter`'s next choice; the
`other…` actions are other connections at work on the shared tables. -/
inductive Act where
  | read (data : Bytes)
  | readEnd
  | written (ok : Bool) (got : Bytes)
  | async
  | sweep
  | closed
  | respond (id status : Nat) (headers : List Header) (body : Bytes)
  | respondFile (id status : Nat) (headers : List Header) (size : Option Nat)
      (offset length : Int)
  | startStream (id status : Nat) (headers : List Header)
  | sendStreamChunk (id : Nat) (chunk : Bytes) (last : Bool)
  | wsSend (payload : Bytes) (binary compressed : Bool)
  | wsClose (code : Nat)
  | tick (ms : Nat)
  | beginDrain
  | attach (emitter : Option Nat)
  | tlsFlight (cipher : Bytes)
  | otherRequest (loc : ReqLoc)
  | otherRetire (id : Nat)
  | otherPush (entry : Pending)
  | newId
deriving DecidableEq, Repr

/-- The bytes an action brings. -/
def Act.data : Act → Bytes
  | .read data => data
  | _ => []

/-- The handle is open: reads are on. -/
def Reactor.reading (r : Reactor) : Prop :=
  ¬ r.conn.closing ∧ ¬ r.conn.eof ∧ ¬ r.conn.h2 ∧ ¬ r.gone

instance (r : Reactor) : Decidable r.reading := inferInstanceAs (Decidable (_ ∧ _))

/-- One step; `none` when the action cannot happen now. -/
def step (r : Reactor) : Act → Option Reactor
  | .read data =>
      if r.reading ∧ (data ≠ [] ∨ r.conn.tls) then some (r.readCb env data) else none
  | .readEnd => if r.reading then some (r.readEnd env) else none
  | .written ok got =>
      match r.conn.writes with
      | [] => none
      | w :: rest =>
          if r.gone ∨ r.conn.h2 then none else some (r.onWrite env w rest ok got)
  | .async => some (r.onAsync env)
  | .sweep => if r.gone ∨ r.conn.h2 then none else some (r.onSweep env)
  | .closed =>
      if r.conn.closing ∧ r.conn.writes = [] ∧ ¬ r.gone then some r.onCloseConn else none
  | .respond id status headers body => some (r.respond env id status headers body)
  | .respondFile id status headers size offset length =>
      some (r.respondFile env id status headers size offset length)
  | .startStream id status headers => some (r.startStream env id status headers)
  | .sendStreamChunk id chunk last => some (r.sendStreamChunk id chunk last)
  | .wsSend payload binary compressed => some (r.wsSend payload binary compressed)
  | .wsClose code => some (r.wsClose code)
  | .tick ms => some { r with clock := r.clock + ms }
  | .beginDrain => some { r with draining := true }
  | .attach emitter => some { r with emitter := emitter }
  | .tlsFlight cipher =>
      if r.reading ∧ r.conn.tls then some (r.tlsRawWrite cipher) else none
  | .otherRequest loc =>
      if loc.connId = r.conn.id then none
      else some { r with nextId := r.nextId + 1, reqLoc := r.reqLoc ++ [(r.nextId, loc)] }
  | .otherRetire id =>
      match r.findReq id with
      | some loc => if loc.connId = r.conn.id then none else some (r.eraseReq id)
      | none => none
  | .otherPush entry =>
      if entry.connId = r.conn.id then none else some (r.pushWrite entry)
  | .newId => some { r with nextId := r.nextId + 1 }

/-- The connection `onConnection` sets up. -/
def Conn.accepted (id : Nat) (tls : Bool) (now : Nat) : Conn :=
  { id := id, tls := tls, lastActive := now, openedAt := now }

/-- A connection just accepted, beside whatever the other connections have in the
shared tables. -/
structure Fresh (r : Reactor) : Prop where
  conn : r.conn = .accepted r.conn.id r.conn.tls r.conn.openedAt
  reqLoc : ∀ e ∈ r.reqLoc, e.2.connId ≠ r.conn.id ∧ e.1 < r.nextId
  distinct : (r.reqLoc.map Prod.fst).Nodup
  queue : ∀ e ∈ r.queue, e.connId ≠ r.conn.id
  id : r.conn.id < r.nextId
  sessions : r.conn.id ∉ r.wsConnLoop
  live : r.gone = false
  trace : r.trace = []

/-! ### A small server for concrete runs -/

/-- `/` and `/post` have handlers, `/up` streams its body (at most four bytes), `/fixed`
is a static route and `/ws` a WebSocket route. -/
def sampleRouter : Router where
  «match» _ _ path :=
    if path = ascii "/" ∨ path = ascii "/post" then some ({}, [])
    else if path = ascii "/up" then some ({ streamBody := true, maxBodyBytes := 4 }, [])
    else if path = ascii "/fixed" then some ({ staticResponse := some {} }, [])
    else if path = ascii "/ws" then some ({ isWebSocket := true }, [])
    else none
  allowedMethods _ := []

def sampleEnv : Env := ⟨{}, sampleRouter, fun _ => [], fun _ bytes => bytes⟩

/-- A plaintext connection, with an isolate attached. -/
def sampleConn : Reactor := { conn := .accepted 0 false 0, emitter := some 0 }

theorem sampleConn_fresh : Fresh sampleConn where
  conn := rfl
  reqLoc := by simp [sampleConn]
  distinct := List.nodup_nil
  queue := by simp [sampleConn]
  id := Nat.one_pos
  sessions := by simp [sampleConn]
  live := rfl
  trace := rfl

end NitroServer.Engine
