/-
Inbound HTTP/1.1 on one connection: `processConn`, the streamed uploads
(`emitStreamBytes`, `emitStreamChunked`, `abortStreamTooLarge`) and the busy-buffer
guard of `UvReactor.cpp`.

`processHead` is one turn of the loop of `processConn`, cut into the stages of its
body: `processHead` finds and parses the head, `processRequest` decides the body
framing, `answerRequest` routes a request that is all there. Every turn that goes
on has answered and left the connection busy, so the loop ends at once
(`processLoop_succ`); the fuel is the length of the buffer.
-/

import NitroServer.Engine.WebSocket

namespace NitroServer.Engine

open NitroServer.Lib

/-! ### Decoding a streamed upload -/

/-- What `emitStreamChunked` carries across turns and reads, with the data decoded
by this call. -/
structure ChunkScan where
  buf : Bytes
  remaining : Nat
  needCrlf : Bool
  total : Nat
  out : Bytes
deriving DecidableEq, Repr

/-- Why a scan stopped. -/
inductive ScanEnd where
  | more | done | malformed | tooLarge
deriving DecidableEq, Repr

/-- The trailer loop after the terminal size line; `start` is where the trailers
begin, `t` the line at hand. The offset behind the blank line when it is there. -/
def scanTrailers (buf : Bytes) (start : Nat) : Nat → Nat → Nat → ScanEnd × Nat
  | 0, t, _ => (.malformed, t)
  | fuel + 1, t, lines =>
      match findSub crlf (buf.drop t) with
      | none => (if kMaxTrailerBytes < buf.length - start then .malformed else .more, t)
      | some 0 => (.done, t + 2)
      | some e =>
          if kMaxTrailerLines < lines + 1 then (.malformed, t)
          else scanTrailers buf start fuel (t + e + 2) (lines + 1)

/-- The chunk data at hand; `none` when there is none, else whether it passed the cap. -/
def scanData (maxBody : Nat) (s : ChunkScan) : Option (Bool × ChunkScan) :=
  let take := min s.buf.length s.remaining
  if take = 0 then none
  else
    let s := { s with
      buf := s.buf.drop take
      remaining := s.remaining - take
      needCrlf := if s.remaining - take = 0 then true else s.needCrlf
      total := s.total + take
      out := s.out ++ s.buf.take take }
    some (decide (maxBody < s.total), s)

/-- The size line at hand: the scan is over, or the data of a chunk follows. -/
def scanSize (s : ChunkScan) : ScanEnd × ChunkScan ⊕ ChunkScan :=
  match findSub crlf s.buf with
  | none => .inl (if kMaxTrailerBytes < s.buf.length then .malformed else .more, s)
  | some eol =>
      match uvChunkSize (s.buf.take eol) with
      | none => .inl (.malformed, s)
      | some 0 =>
          match scanTrailers s.buf (eol + 2) (s.buf.length + 1) (eol + 2) 0 with
          | (.done, stop) => .inl (.done, { s with buf := s.buf.drop stop })
          | (e, _) => .inl (e, s)
      | some sz => .inr { s with buf := s.buf.drop (eol + 2), remaining := sz }

/-- The CRLF behind a chunk's data. -/
def scanCrlf (s : ChunkScan) : ScanEnd × ChunkScan ⊕ ChunkScan :=
  if ¬ s.needCrlf then .inr s
  else if s.buf.length < 2 then .inl (.more, s)
  else if s.buf.take 2 ≠ crlf then .inl (.malformed, s)
  else .inr { s with buf := s.buf.drop 2, needCrlf := false }

/-- The loop of `emitStreamChunked`. -/
def scanChunks (maxBody : Nat) : Nat → ChunkScan → ScanEnd × ChunkScan
  | 0, s => (.more, s)
  | fuel + 1, s =>
      match scanCrlf s with
      | .inl stop => stop
      | .inr s =>
          match if s.remaining = 0 then scanSize s else .inr s with
          | .inl stop => stop
          | .inr s =>
              match scanData maxBody s with
              | none => (.more, s)
              | some (true, s) => (.tooLarge, s)
              | some (false, s) => scanChunks maxBody fuel s

variable (env : Env)

namespace Reactor

/-! ### Streamed uploads -/

/-- A payload of the upload goes to its sink. -/
def emitStreamData (r : Reactor) (payload : Bytes) : Reactor :=
  r.emitTo r.conn.streamEmitter fun sink =>
    [.track r.conn.streamReqId payload, .emitBodyData sink r.conn.streamReqId payload]

/-- The upload is over: end marker, and the buffer is the parser's again. -/
def endStream (r : Reactor) : Reactor :=
  (r.emitTo r.conn.streamEmitter fun sink => [.emitBodyEnd sink r.conn.streamReqId]).setConn
    { r.conn with streamingBody := false }

/-- The first half of `emitStreamBytes`. Without a sink the bytes stay. -/
def takeStreamBytes (r : Reactor) : Reactor :=
  let avail := min r.conn.buf.length r.conn.bodyRemaining
  if 0 < avail ∧ r.conn.streamEmitter.isSome then
    (r.emitStreamData (r.conn.buf.take avail)).setConn { r.conn with
      buf := r.conn.buf.drop avail
      bodyRemaining := r.conn.bodyRemaining - avail }
  else r

/-- `emitStreamBytes`: a Content-Length upload. -/
def emitStreamBytes (r : Reactor) : Reactor :=
  if r.takeStreamBytes.conn.bodyRemaining = 0 then r.takeStreamBytes.endStream
  else r.takeStreamBytes

def tooLargeMsg : Bytes := ascii "request body too large"

/-- `abortStreamTooLarge`. -/
def abortStreamTooLarge (r : Reactor) : Reactor :=
  let id := r.conn.streamReqId
  ((((r.setConn { r.conn with streamingBody := false }).retireReq id).emitTo
    r.conn.streamEmitter fun sink =>
      [.track id tooLargeMsg, .emitBodyError sink id tooLargeMsg .requestTooLarge]).refuse env
        (.request id) 413)

/-- The upload's decoder state. -/
def chunkScan (r : Reactor) : ChunkScan :=
  ⟨r.conn.buf, r.conn.chunkRemaining, r.conn.chunkNeedCrlf, r.conn.streamBodyTotal, []⟩

/-- The decoded data of one pass, if any, goes out. -/
def emitDecoded (r : Reactor) (out : Bytes) : Reactor :=
  if out = [] then r else r.emitStreamData out

/-- `emitStreamChunked`. -/
def emitStreamChunked (r : Reactor) : Reactor :=
  let (stop, s) := scanChunks r.conn.streamMaxBody (r.conn.buf.length + 1) r.chunkScan
  let r := r.setConn { r.conn with
    buf := s.buf
    chunkRemaining := s.remaining
    chunkNeedCrlf := s.needCrlf
    streamBodyTotal := s.total }
  match stop with
  | .tooLarge => r.abortStreamTooLarge env
  | .malformed => (r.setConn { r.conn with streamingBody := false }).closeConn
  | .more => r.emitDecoded s.out
  | .done => (r.emitDecoded s.out).endStream

/-- The upload continues with what is buffered. -/
def emitStream (r : Reactor) : Reactor :=
  if r.conn.streamChunked then r.emitStreamChunked env else r.emitStreamBytes

/-- `overBusyBuffer`, when it trips. -/
def busyBufferFull (r : Reactor) : Bool :=
  r.conn.busy && !r.conn.streamingBody && !r.conn.ws && !r.conn.h2 &&
    decide (64 * 1024 + env.cfg.serverMax < r.conn.buf.length)

/-- The guard's answer. -/
def refuseBusyBuffer (r : Reactor) : Reactor :=
  ((r.broadcastEvent .clientError r.conn.id "pipelined bytes exceed the buffer cap").setConn
    { r.conn with buf := [] }).refuse env .guard 400

end Reactor

/-! ### One request -/

/-- A request as `processConn` knows it once its head is parsed. -/
structure Request where
  head : ParsedHead
  path : Bytes
  query : Bytes
  route : Option (RouteEntry × List RouteParam)
  chunked : Bool
deriving DecidableEq, Repr

/-- The target split at the first `?`. -/
def splitTarget (target : Bytes) : Bytes × Bytes :=
  let (path, query) := match target.findIdx? (· == 63) with
    | some q => (target.take q, target.drop (q + 1))
    | none => (target, [])
  (if path = [] then [47] else path, query)

/-- The head, routed. -/
def Request.of (head : ParsedHead) (chunked : Bool) : Request :=
  let (path, query) := splitTarget head.target
  ⟨head, path, query, env.router.match head.method head.customMethod path, chunked⟩

/-- The body cap: the route's, or the server's. -/
def Request.maxBody (q : Request) : Nat :=
  match q.route with
  | some (route, _) =>
      if 0 ≤ route.maxBodyBytes then route.maxBodyBytes.toNat else env.cfg.serverMax
  | none => env.cfg.serverMax

/-- The matched route, when the body is streamed to its handler. -/
def Request.streamRoute (q : Request) : Option (RouteEntry × List RouteParam) :=
  q.route.filter fun (route, _) =>
    route.streamBody &&
      !(decide (0 ≤ route.maxBodyBytes) && decide (route.maxBodyBytes < declaredLength q.head))

/-- `Expect: 100-continue`. -/
def Request.expectsContinue (q : Request) : Bool :=
  (uvFindHeader q.head.headers "expect").any fun ex =>
    (findSub (ascii "100-continue") ex.value).isSome ||
      (findSub (ascii "100-Continue") ex.value).isSome

/-- A request with a body. -/
def Request.hasBody (q : Request) : Bool := decide (0 < declaredLength q.head) || q.chunked

/-- What is buffered of the body: not all of it yet, a refusal, or the body with the
offset behind it. -/
inductive BodyTake where
  | wait
  | refuse (status : Nat)
  | whole (body : Bytes) (stop : Nat)
deriving DecidableEq, Repr

/-- The body in the connection's buffer, from `start`. -/
def Request.takeBody (q : Request) (buf : Bytes) (start : Nat) : BodyTake :=
  if q.chunked then
    match decodeChunked buf start (q.maxBody env) with
    | .needMore => .wait
    | .malformed => .refuse 400
    | .overCap => .refuse 413
    | .complete body stop => .whole body stop
  else
    let clen := declaredLength q.head
    if buf.length < start + clen then .wait
    else .whole ((buf.drop start).take clen) (start + clen)

def routeTimeout (route : RouteEntry) : Int :=
  if 0 ≤ route.timeoutMs then route.timeoutMs else env.cfg.defaultTimeoutMs

def notSupported : List Header := [⟨ascii "Sec-WebSocket-Version", ascii "13"⟩]

/-- The `Allow` value: the tokens joined by a comma and a space. -/
def allowValue (tokens : List Bytes) : Bytes :=
  tokens.foldl (fun acc t => acc ++ (if acc = [] then [] else [44, 32]) ++ t) []

namespace Reactor

/-- The answer to this request may keep the connection. -/
def mayKeepAlive (r : Reactor) (head : ParsedHead) : Bool :=
  uvClientWantsKeepAlive head && decide (0 < env.cfg.keepAliveTimeoutMs) && !r.draining &&
    !r.conn.ageExpired &&
    (decide (env.cfg.maxRequestsPerConn ≤ 0) ||
      decide ((r.conn.served : Int) + 1 < env.cfg.maxRequestsPerConn))

/-- Register a request under the next id: it is in flight, with its deadline. -/
def dispatch (r : Reactor) (q : Request) (route : RouteEntry) (keepAlive : Bool) : Reactor :=
  let id := r.nextId
  let timeout := routeTimeout env route
  { r with
    nextId := id + 1
    reqLoc := r.reqLoc ++ [(id, ⟨r.conn.id, decide (q.head.method = .head), keepAlive⟩)]
    conn := { r.conn with
      busy := true
      reqIdInFlight := some id
      reqDeadline := if 0 < timeout then r.clock + timeout.toNat else r.conn.reqDeadline
      hasDeadline := if 0 < timeout then true else r.conn.hasDeadline }
    trace := r.trace ++ [.dispatch id] }

/-- The arguments of the head message for a dispatched request. -/
def headMsg (q : Request) (id clen : Nat) (hasBody bodyComplete : Bool) (route : RouteEntry)
    (params : List RouteParam) : HeadMsg :=
  ⟨id, q.head.method, q.head.customMethod, q.path, q.query, q.head.headers, clen, hasBody,
    bodyComplete, route.pattern, params⟩

def serverBusy (r : Reactor) : Reactor :=
  r.refuseText env 503 "server busy" [⟨ascii "Retry-After", ascii "1"⟩]

/-- A streamBody route: dispatch the head, then stream what is buffered. The id is
taken before the budget is checked. -/
def dispatchStream (r : Reactor) (q : Request) (route : RouteEntry)
    (params : List RouteParam) (bodyStart : Nat) : Reactor :=
  if r.overInFlightBudget env then { r with nextId := r.nextId + 1 }.serverBusy env
  else
    let id := r.nextId
    let clen := declaredLength q.head
    let em := r.emitter
    let r := (r.dispatch env q route (r.mayKeepAlive env q.head)).emitTo em fun sink =>
      [.emitHead sink (headMsg q id clen true false route params)]
    (r.setConn { r.conn with
      streamingBody := true
      streamChunked := q.chunked
      streamReqId := id
      streamEmitter := em
      bodyRemaining := if q.chunked then 0 else clen
      streamMaxBody := q.maxBody env
      streamBodyTotal := 0
      buf := r.conn.buf.drop bodyStart
      lastActive := r.clock }).emitStream env

/-- A handler route: head, body as one chunk, end marker. -/
def dispatchWhole (r : Reactor) (q : Request) (route : RouteEntry)
    (params : List RouteParam) (keepAlive : Bool) (body : Bytes) : Reactor :=
  let id := r.nextId
  let hasBody := decide (body ≠ [])
  (r.dispatch env q route keepAlive).emitTo r.emitter fun sink =>
    .emitHead sink (headMsg q id body.length hasBody (!hasBody) route params) ::
      if hasBody then [.track id body, .emitBodyData sink id body, .emitBodyEnd sink id] else []

/-- The route of a request that is all there; it has left the buffer. -/
def answerRequest (r : Reactor) (q : Request) (keepAlive : Bool) (body : Bytes) :
    Reactor × Bool :=
  let secs := env.cfg.keepAliveHeaderSecs
  let upgrade := uvIsWebSocketUpgrade q.head
  match q.route with
  | none =>
      if upgrade then (r.refuseText env 426 "websocket not supported" notSupported, true)
      else
        let allowed := env.router.allowedMethods q.path
        let head := if allowed ≠ [] then
            uvBuildHead (r.date env) 405 [⟨ascii "Allow", allowValue allowed⟩] 0 keepAlive secs
          else uvBuildHead (r.date env) 404 [] 0 keepAlive secs
        (r.writeAnswer env [⟨.engine, .whole, head⟩] keepAlive true, true)
  | some (route, params) =>
      if route.isWebSocket then
        if !upgrade then (r.refuseText env 426 "websocket not supported" notSupported, true)
        else if body ≠ [] ∨ r.conn.buf ≠ [] then (r.refuse env .engine 400, false)
        else (r.wsHandshake env q.head route params q.path q.query, false)
      else if upgrade then (r.refuseText env 426 "websocket not supported" notSupported, true)
      else match route.staticResponse with
        | some sr =>
            let ka := keepAlive && decide (body = [])
            let out := uvBuildHead (r.date env) sr.status sr.headers sr.body.length ka secs ++
              (if q.head.method = .head then [] else sr.body)
            (r.writeAnswer env [⟨.fixed, .whole, out⟩] ka true, true)
        | none =>
            if r.overInFlightBudget env then (r.serverBusy env, true)
            else (r.dispatchWhole env q route params keepAlive body, false)

def kContinue : Bytes := ascii "HTTP/1.1 100 Continue\r\n\r\n"

/-- 100-continue, once per request with a body. -/
def sendContinue (r : Reactor) (q : Request) : Reactor :=
  if q.hasBody ∧ ¬ r.conn.continueSent then
    if q.expectsContinue then
      (r.setConn { r.conn with continueSent := true }).writeRaw env ⟨.engine, .interim, kContinue⟩
    else r.setConn { r.conn with continueSent := true }
  else r

/-- A parsed and well-framed head: decide the body, then answer. -/
def processRequest (r : Reactor) (q : Request) (bodyStart : Nat) : Reactor × Bool :=
  if ¬ q.chunked ∧ q.maxBody env < declaredLength q.head then (r.refuse env .engine 413, false)
  else
    let r := r.sendContinue env q
    match if q.hasBody then q.streamRoute else none with
    | some (route, params) => (r.dispatchStream env q route params bodyStart, false)
    | none =>
        match q.takeBody env r.conn.buf bodyStart with
        | .wait => (r.setConn { r.conn with bodyPending := true }, false)
        | .refuse status => (r.refuse env .engine status, false)
        | .whole body stop =>
            let keepAlive := r.mayKeepAlive env q.head
            (r.setConn { r.conn with
              buf := r.conn.buf.drop stop, bodyPending := false, lastActive := r.clock })
              |>.answerRequest env q keepAlive body

/-- No head is complete: flood check and header timeout. -/
def awaitHead (r : Reactor) : Reactor :=
  if 64 * 1024 < r.conn.buf.length then r.closeConn
  else if r.conn.buf ≠ [] ∧ ¬ r.conn.headPending then
    r.setConn { r.conn with headPending := true, headStartedAt := r.clock }
  else r

/-- One turn of `processConn`; the Boolean says that the loop goes on. -/
def processHead (r : Reactor) : Reactor × Bool :=
  match findSub crlf2 r.conn.buf with
  | none => (r.awaitHead, false)
  | some headEnd =>
      let r := r.setConn { r.conn with headPending := false }
      let head := parseRequestHead r.conn.buf headEnd
      if !head.ok then (r.refuse env .engine (if head.badVersion then 505 else 400), false)
      else match uvFraming head with
        | .error fv => (r.refuse env .engine fv.status, false)
        | .ok chunked => r.processRequest env (Request.of env head chunked) (headEnd + 4)

def processLoop : Nat → Reactor → Reactor
  | 0, r => r
  | fuel + 1, r =>
      if r.conn.busy ∨ r.conn.closing then r
      else match r.processHead env with
        | (r', true) => processLoop fuel r'
        | (r', false) => r'

/-- The HTTP/2 connection preface. -/
def h2Preface : Bytes := ascii "PRI * HTTP/2.0\r\n\r\nSM\r\n\r\n"

/-- The h2c probe applies: a fresh plaintext connection with bytes to look at, and
these agree with the preface as far as they go. -/
def looksH2 (r : Reactor) : Bool :=
  env.cfg.http2 && !r.conn.tls && r.conn.served == 0 && !r.conn.busy && r.conn.buf ≠ [] &&
    r.conn.buf.take h2Preface.length == h2Preface.take r.conn.buf.length

/-- `processConn`. A connection that turns out to be HTTP/2 is only marked. -/
def processConn (r : Reactor) : Reactor :=
  if r.conn.streamingBody then r
  else if r.conn.h2 then r
  else if r.looksH2 env then
    if r.conn.buf.length < h2Preface.length then r
    else r.setConn { r.conn with h2 := true }
  else r.processLoop env (r.conn.buf.length + 1)

/-! ### The loop ends after one turn -/

@[simp] theorem closeConn_busy (r : Reactor) : r.closeConn.conn.busy = r.conn.busy := by
  unfold closeConn
  split <;> rfl

theorem wsCloseConn_busy (r : Reactor) (code : Nat) (h : r.conn.busy = true) :
    (r.wsCloseConn env code).conn.busy = true := by
  unfold wsCloseConn
  split
  · exact h
  · rfl

/-- Whoever writes an answer shuts the gate. -/
@[simp] theorem writeAnswer_busy (r : Reactor) (ps : List Piece) (ka fin : Bool) :
    (r.writeAnswer env ps ka fin).conn.busy = true := by
  unfold writeAnswer
  dsimp only
  split
  · exact wsCloseConn_busy env _ _ rfl
  · split
    · simp [broadcastEvent, log, startAnswer, issueWrite, setConn]
    · rfl

theorem answerRequest_busy {r : Reactor} {q : Request} {ka : Bool} {body : Bytes}
    (h : (r.answerRequest env q ka body).2 = true) :
    (r.answerRequest env q ka body).1.conn.busy = true := by
  revert h
  unfold answerRequest
  dsimp only
  repeat' split
  all_goals simp [refuseText, serverBusy]

/-- A turn that goes on has answered. -/
theorem processHead_busy {r : Reactor} (h : (r.processHead env).2 = true) :
    (r.processHead env).1.conn.busy = true := by
  revert h
  unfold processHead processRequest
  dsimp only
  repeat' split
  all_goals first | exact fun h => answerRequest_busy env h | simp

/-- The loop of `processConn` is one turn. -/
theorem processLoop_succ (fuel : Nat) (r : Reactor) :
    r.processLoop env (fuel + 1) =
      if r.conn.busy ∨ r.conn.closing then r else (r.processHead env).1 := by
  unfold processLoop
  split
  · rfl
  · split
    · rename_i r' h
      have busy : r'.conn.busy = true := by
        have := processHead_busy env (r := r) (by rw [h])
        rwa [h] at this
      rw [h]
      cases fuel with
      | zero => rfl
      | succ fuel => simp [processLoop, busy]
    · rename_i r' h
      rw [h]

end Reactor

end NitroServer.Engine
