/-
The reactor's state as one connection sees it, and the write path
(`UvReactor.h`, `struct UvReactor::Conn` and `writeAnswer` / `writeRaw` of
`UvReactor.cpp`).

A `Reactor` holds one connection together with the state it shares with every
other connection of its loop: the request table `reqLoc_`, the cross-thread inbox
`queue`, the id counter and the clock. Entries of other connections live in the
same tables, so that the in-flight budget and the coalescing of queued answers
see them; what the loop does on those connections is not followed.

`trace` records, in order, what the reactor does to the outside: messages handed
to an emitter, payload-log calls, answers put into the inbox, `uv_write` and
`uv_close` calls. Each written piece says which part of whose answer it is: the
labels are the model's own, the bytes are the source's.

A handle is closing (`uv_is_closing`) exactly when `closing` is set, since every
place that sets it calls `uv_close`; an HTTP/2 session is opaque here, its
connection is only marked `h2`. The bytes of a TLS connection are the decrypted
ones; `sealed` gives the size of what goes on the wire for them.
-/

import NitroServer.Engine.Framing

namespace NitroServer.Engine

/-! ### What is written -/

/-- Whose answer a piece belongs to. `engine`: the request at the front of the
buffer, answered without a handler; `fixed`: the same from a static route;
`guard`: the busy-buffer guard; `request`: a dispatched request; `session`: a
WebSocket session. -/
inductive Origin where
  | engine | fixed | guard | session
  | request (id : Nat)
deriving DecidableEq, Repr

/-- Which part of an answer: an interim response, a whole response, the head of a
streamed one, a body piece, the piece that ends it, or bytes outside any response. -/
inductive Part where
  | interim | whole | head | chunk | last | raw
deriving DecidableEq, Repr

structure Piece where
  origin : Origin
  part : Part
  bytes : Bytes
deriving DecidableEq, Repr

def payloadBytes (payload : List Piece) : Bytes := payload.flatMap Piece.bytes

/-! ### Messages to the runner -/

/-- The arguments of `Emitter::emitHead`. -/
structure HeadMsg where
  requestId : Nat
  method : Method
  customMethod : Bytes
  path : Bytes
  query : Bytes
  headers : List Header
  contentLength : Nat
  hasBody : Bool
  bodyComplete : Bool
  routePattern : Bytes
  params : List RouteParam
deriving DecidableEq, Repr

/-! ### Shared tables -/

/-- `ReqLoc`: where the answer of a dispatched request goes. -/
structure ReqLoc where
  connId : Nat
  isHead : Bool
  keepAlive : Bool
deriving DecidableEq, Repr

/-- A file answer: bytes still to be read, and from where. The request id is only a
label for the pieces. -/
structure FileSend where
  requestId : Nat
  offset : Nat
  remaining : Nat
  keepAlive : Bool
deriving DecidableEq, Repr

/-- `Loop::Pending`: one queued answer piece. -/
structure Pending where
  connId : Nat
  piece : Piece
  keepAlive : Bool
  finish : Bool
  file : Option FileSend := none
deriving DecidableEq, Repr

/-- `WriteCtx`: an issued `uv_write` and what its completion does. -/
structure WriteCtx where
  size : Nat
  keepAlive : Bool
  finish : Bool
deriving DecidableEq, Repr

/-- What the reactor does to the outside, in order. -/
inductive Ev where
  | dispatch (id : Nat)
  | upgrade
  | emitHead (sink : Nat) (head : HeadMsg)
  | emitBodyData (sink id : Nat) (payload : Bytes)
  | emitBodyEnd (sink id : Nat)
  | emitBodyError (sink id : Nat) (payload : Bytes) (kind : ErrorKind)
  | emitWsMessage (sink id : Nat) (payload : Bytes) (opcode code : Nat)
  | emitEvent (kind : ServerEventKind) (id : Nat) (message : String)
  | track (id : Nat) (payload : Bytes)
  | erase (id : Nat)
  | drop (id : Nat)
  | push (entry : Pending)
  | write (payload : List Piece) (keepAlive finish : Bool) (level : Nat)
  | close
deriving DecidableEq, Repr

/-! ### Connection and reactor -/

/-- `UvReactor::Conn`. An absent id, emitter, opcode or file is `none` where the
source has −1 or a null pointer; `writes` are the issued writes not completed yet. -/
structure Conn where
  id : Nat
  buf : Bytes := []
  busy : Bool := false
  closing : Bool := false
  served : Nat := 0
  reqIdInFlight : Option Nat := none
  continueSent : Bool := false
  streamingBody : Bool := false
  streamChunked : Bool := false
  streamReqId : Nat := 0
  streamEmitter : Option Nat := none
  bodyRemaining : Nat := 0
  chunkRemaining : Nat := 0
  chunkNeedCrlf : Bool := false
  streamMaxBody : Nat := 0
  streamBodyTotal : Nat := 0
  h2 : Bool := false
  file : Option FileSend := none
  writePending : Nat := 0
  writeStartedAt : Nat := 0
  lastActive : Nat := 0
  responseStarted : Bool := false
  lastWriteAt : Nat := 0
  openedAt : Nat := 0
  reqDeadline : Nat := 0
  hasDeadline : Bool := false
  bodyPending : Bool := false
  headPending : Bool := false
  headStartedAt : Nat := 0
  ageExpired : Bool := false
  wsPingSent : Bool := false
  ws : Bool := false
  wsEmitter : Option Nat := none
  wsMsg : Bytes := []
  wsMsgOpcode : Option Nat := none
  wsMsgCompressed : Bool := false
  wsClosing : Bool := false
  deflate : Bool := false
  tls : Bool := false
  eof : Bool := false
  writes : List WriteCtx := []
deriving DecidableEq, Repr

structure Reactor where
  conn : Conn
  reqLoc : List (Nat × ReqLoc) := []
  wsConnLoop : List Nat := []
  queue : List Pending := []
  nextId : Nat := 1
  draining : Bool := false
  running : Bool := true
  emitter : Option Nat := none
  clock : Nat := 0
  gone : Bool := false
  trace : List Ev := []
deriving DecidableEq, Repr

/-- What the reactor is configured with and what it asks of the outside: the
registered routes, the date line at a clock value, and the ciphertext OpenSSL
produces for a plaintext (the number makes successive records differ). -/
structure Env where
  cfg : ServerConfig
  router : Router
  date : Nat → Bytes
  sealed : Nat → Bytes → Bytes

variable (env : Env)

namespace Reactor

/-- Change the connection. -/
def setConn (r : Reactor) (c : Conn) : Reactor := { r with conn := c }

/-- Append to the trace. -/
def log (r : Reactor) (evs : List Ev) : Reactor := { r with trace := r.trace ++ evs }

/-- Messages to a sink, when there is one. -/
def emitTo (r : Reactor) (sink : Option Nat) (evs : Nat → List Ev) : Reactor :=
  r.log (sink.elim [] evs)

def broadcastEvent (r : Reactor) (kind : ServerEventKind) (id : Nat) (message : String) :
    Reactor :=
  r.log [.emitEvent kind id message]

/-- `closing = true` and `uv_close`, once. -/
def closeConn (r : Reactor) : Reactor :=
  if r.conn.closing then r
  else { r with conn := { r.conn with closing := true }, trace := r.trace ++ [.close] }

/-- The size of what goes on the wire for these bytes. -/
def wireSize (r : Reactor) (bytes : Bytes) : Nat :=
  if r.conn.tls then (env.sealed r.trace.length bytes).length else bytes.length

/-- The common tail of `writeAnswer` and `writeRaw`: account and `uv_write`. -/
def issueWrite (r : Reactor) (payload : List Piece) (keepAlive finish : Bool) : Reactor :=
  let size := r.wireSize env (payloadBytes payload)
  { r with
    conn := { r.conn with
      writeStartedAt := if r.conn.writePending = 0 then r.clock else r.conn.writeStartedAt
      writePending := r.conn.writePending + size
      writes := r.conn.writes ++ [⟨size, keepAlive, finish⟩] }
    trace := r.trace ++ [.write payload keepAlive finish (r.conn.writePending + size)] }

/-- `writeAnswer` up to the backpressure checks. -/
def startAnswer (r : Reactor) (payload : List Piece) (keepAlive finish : Bool) : Reactor :=
  (r.setConn { r.conn with
    busy := true, hasDeadline := false, responseStarted := true, lastWriteAt := r.clock })
    |>.issueWrite env payload keepAlive finish

/-- `wsCloseConn`: tell the runner, send a close frame and close once it lands.
The frame is written by `writeAnswer`, whose backpressure checks are off for a
session that is closing. -/
def wsCloseConn (r : Reactor) (code : Nat) : Reactor :=
  if r.conn.wsClosing then r
  else
    let r := { r with
      conn := { r.conn with wsClosing := true }
      wsConnLoop := r.wsConnLoop.filter (· ≠ r.conn.id) }
    let r := r.emitTo r.conn.wsEmitter fun sink =>
      [.emitWsMessage sink r.conn.id [] Ws.kClose code]
    let wire := if code = 1005 then 1000 else code -- 1005 is not a wire code
    let frame := Ws.encodeFrame Ws.kClose (Ws.beBytes wire 2) true
    r.startAnswer env [⟨.session, .raw, frame⟩] false true

/-- `writeAnswer`: write; a session or a stream whose unsent bytes pass its cap is
closed. -/
def writeAnswer (r : Reactor) (payload : List Piece) (keepAlive finish : Bool) : Reactor :=
  let r := r.startAnswer env payload keepAlive finish
  if r.conn.ws ∧ ¬ r.conn.wsClosing ∧ 0 < env.cfg.wsMaxBufferBytes ∧
      env.cfg.wsMaxBufferBytes < r.conn.writePending then
    r.wsCloseConn env 1009
  else if ¬ r.conn.ws ∧ ¬ finish ∧ 0 < env.cfg.streamMaxBufferBytes ∧
      env.cfg.streamMaxBufferBytes < r.conn.writePending ∧ ¬ r.conn.closing then
    (r.broadcastEvent .clientError r.conn.id "stream buffer limit exceeded").closeConn
  else r

/-- `writeRaw`: bytes outside the request state (100-continue). -/
def writeRaw (r : Reactor) (piece : Piece) : Reactor :=
  if piece.bytes = [] then r else r.issueWrite env [piece] true false

/-- `tlsRawWrite`: a handshake flight or an alert, written without accounting; it
carries no plaintext. -/
def tlsRawWrite (r : Reactor) (cipher : Bytes) : Reactor :=
  if cipher = [] then r
  else { r with
    conn := { r.conn with writes := r.conn.writes ++ [⟨cipher.length, true, false⟩] }
    trace := r.trace ++ [.write [] true false r.conn.writePending] }

/-- The date line of this moment. -/
def date (r : Reactor) : Bytes := env.date r.clock

/-- A body-less engine answer that closes: `writeAnswer(uvBuildHead(status, {}, 0,
false, 0), false, true)`. -/
def refuse (r : Reactor) (origin : Origin) (status : Nat) : Reactor :=
  r.writeAnswer env [⟨origin, .whole, uvBuildHead (r.date env) status [] 0 false (some 0)⟩]
    false true

/-- A short text answer that closes: `writeAnswer(uvErrorResponse(…), false, true)`. -/
def refuseText (r : Reactor) (status : Nat) (msg : String) (extra : List Header) : Reactor :=
  r.writeAnswer env [⟨.engine, .whole, uvErrorResponse (r.date env) status msg extra⟩]
    false true

/-! ### The request table -/

/-- The request's entry. -/
def findReq (r : Reactor) (id : Nat) : Option ReqLoc :=
  (r.reqLoc.find? fun e => e.1 == id).map Prod.snd

/-- `lookupReq(id, loc, erase=true)` on a present entry: the entry goes, and the
payload log is orphaned. -/
def eraseReq (r : Reactor) (id : Nat) : Reactor :=
  { r with reqLoc := r.reqLoc.filter fun e => e.1 != id, trace := r.trace ++ [.erase id] }

/-- `lookupReq(id, loc, erase=true)` whose result is not looked at. -/
def retireReq (r : Reactor) (id : Nat) : Reactor :=
  if (r.findReq id).isSome then r.eraseReq id else r

/-- `overInFlightBudget`. -/
def overInFlightBudget (r : Reactor) : Bool :=
  0 < env.cfg.maxInFlightRequests && env.cfg.maxInFlightRequests ≤ r.reqLoc.length

/-- `pushWrite` (and the queue pushes of `respondFile`). -/
def pushWrite (r : Reactor) (entry : Pending) : Reactor :=
  { r with queue := r.queue ++ [entry], trace := r.trace ++ [.push entry] }

end Reactor

end NitroServer.Engine
