/-
The Dart runner between the engine and the handlers (`server_runner.dart`): heads, body chunks,
events and WebSocket frames come in on streams of their own, answers and acknowledgements go out.

* `Machine` — the tables by request or connection id, and what has gone out, in order.
* `onHead`, `onChunk`, `onEvent`, `deliver`, `onWsMessage`, `dispatchWs` and what they call, under
  the source's names.
* `step` — one callback of the runner, or one thing user code does: any order of them is a run.

User code is a parameter, and so is what the runner takes from Dart's libraries (`Host`).
Metrics, the clock and the subscription objects themselves are left out.
-/

import NitroServer.Api.Query
import NitroServer.Lib.Recent
import NitroServer.Lib.Run
import NitroServer.Runner.Gate
import NitroServer.Runner.Reload

namespace NitroServer.Runner

open Api (Unicode utf8Decode)
open Bridge (DartString)
open Engine (Bytes Method)
open Lib

/-! ### Messages -/

/-- `RawIncomingRequest`. -/
structure Head where
  requestId : Int64
  method : Method
  customMethod : Bytes
  path : Bytes
  query : Bytes
  packedHeaders : Bytes
  params : List (Bytes × Bytes)
  routePattern : Bytes
  hasBody : Bool
  bodyComplete : Bool
  clientIp : Bytes
deriving DecidableEq, Repr

/-- `RawBodyChunk` without its id. -/
inductive Chunk where
  | data (bytes : Bytes)
  | error (message : Bytes)
  | end_
deriving DecidableEq, Repr

/-- `RawWsMessage` without its connection. -/
structure Frame where
  kind : Nat
  aux : Int
  bytes : Bytes
deriving DecidableEq, Repr

/-- `RequestContext`, as `_dispatch` builds it; `bodyStream` says whether there is one. -/
structure Context where
  method : Method
  customMethod : Bytes
  path : Bytes
  query : Bytes
  packedHeaders : Bytes
  params : List (Bytes × Bytes)
  routePattern : Bytes
  body : Bytes
  bodyStream : Bool
  clientIp : Bytes
deriving DecidableEq, Repr

/-- `WsMessage`. -/
inductive WsMessage where
  | text (units : DartString)
  | binary (bytes : Bytes)
deriving DecidableEq, Repr

/-- `_sizeOf`. -/
def WsMessage.size : WsMessage → Nat
  | .text units => units.length
  | .binary bytes => bytes.length

/-! ### State -/

/-- `_Pending`; `streaming` says that it has a stream. -/
structure Pending where
  head : Head
  body : Bytes := []
  error : Option Bytes := none
  complete : Bool := false
  dispatched : Bool := false
  streaming : Bool := false
deriving DecidableEq, Repr

/-- The `StreamController` of a `streamBody` request: what was added to it. -/
structure Upload where
  chunks : List Bytes
  error : Option Bytes := none
  closed : Bool := false
deriving DecidableEq, Repr

/-- Where the gate in front of a WebSocket handler stands. -/
inductive Phase where
  | gating | running | turnedAway
deriving DecidableEq, Repr

/-- `_WsSessionImpl`; `offered` are the frames `_deliverWs` has had for it. -/
structure Session where
  id : Int64
  phase : Phase := .gating
  compressed : Bool
  offered : List Frame := []
  messages : List WsMessage := []
  consumed : Nat := 0
  inboundBuffered : Nat := 0
  done : Bool := false
  closeCode : Option Int := none
deriving DecidableEq, Repr

/-- Who answers a request. -/
inductive Answerer (U : UserCode) where
  | handler (piped : U.Handler)
  | notFound (handler : Option U.NotFound)

/-- What the runner does that others see. `received` and `receivedFrame`, `completed`, `upgrade` and
`evicted` only mark the moment a payload is taken off the engine's hands, the end of a request, a
new session and the loss of a connection's parked frames. -/
inductive Output (U : UserCode) where
  | received (id : Int64)
  | receivedFrame (id : Int64) (frame : Frame)
  | ack (id : Int64) (upTo : Nat)
  | run (id : Int64) (answerer : Answerer U) (context : Context)
  | completed (id : Int64)
  | answer (id : Int64) (response : Response)
  | lastChunk (id : Int64)
  | event (id : Int64) (message : DartString)
  | upgrade (id : Int64) (context : Context)
  | evicted (id : Int64)
  | wsRun (session : Nat)
  | wsSend (id : Int64) (payload : Bytes) (binary deflated : Bool)
  | wsClose (session : Nat) (id : Int64) (code : Int)

def parkedLimit : Nat := 1024

/-- The runner's tables. `waiting` has an id for each handler that has not returned yet. -/
structure Machine (U : UserCode) where
  tables : Tables U := {}
  pending : Table Int64 Pending := .empty
  completed : Recent Int64 parkedLimit := .empty
  early : Table Int64 (List Bytes) := .empty
  earlyErrors : Table Int64 Bytes := .empty
  earlyComplete : Table Int64 Unit := .empty
  acked : Table Int64 Nat := .empty
  uploads : Table Int64 Upload := .empty
  outbound : Table Int64 Unit := .empty
  waiting : List Int64 := []
  wsSessions : Table Int64 Nat := .empty
  wsOpened : Recent Int64 parkedLimit := .empty
  wsAcked : Table Int64 Nat := .empty
  wsEarly : Table Int64 (List Frame) := .empty
  sessions : List Session := []
  closed : Bool := false
  out : List (Output U) := []

/-- What `wsInflate` makes of a payload: the message, or one of the two ways it throws. -/
inductive Inflated where
  | bytes (bytes : Bytes)
  | tooBig
  | undecodable

/-- What the runner is configured with and takes from elsewhere. -/
structure Host (U : UserCode) where
  lib : Unicode
  serverHeader : Option DartString
  wsMaxBufferBytes : Nat
  /-- `identical(gate, _identity)`. -/
  isIdentity : (U.Handler → U.Handler) → Bool
  /-- Whether the handshake negotiated `permessage-deflate`. -/
  compressed : Context → Bool
  deflate : Bytes → Bytes
  inflate : Bytes → Nat → Inflated

namespace Machine

variable {U : UserCode} (host : Host U) (s : Machine U) (id : Int64)

/-! ### Acknowledging and completing -/

def emit (o : Output U) : Machine U := { s with out := s.out ++ [o] }

/-- `_copyChunk`. -/
def copyChunk : Machine U :=
  { s with acked := s.acked.set id ((s.acked.find id).getD 0 + 1) }.emit (.received id)

/-- `ackBody` with a count that is there and positive. -/
def ackCount (acked : Option Nat) : Machine U :=
  match acked with
  | some n => if 0 < n then s.emit (.ack id n) else s
  | none => s

/-- `_ackNow`. -/
def ackNow : Machine U := s.ackCount id (s.acked.find id)

def closeUpload : Machine U :=
  match s.uploads.find id with
  | some u => { s with uploads := s.uploads.set id { u with closed := true } }
  | none => s

/-- The stream of a request that has one is closed. -/
def endStream : Machine U :=
  match s.pending.find id with
  | some p => if p.streaming then s.closeUpload id else s
  | none => s

/-- `_complete`. -/
def complete : Machine U :=
  let s := s.endStream id
  let s := { s with pending := s.pending.erase id, completed := s.completed.add id }
  let acked := s.acked.find id
  ({ s with acked := s.acked.erase id }.emit (.completed id)).ackCount id acked

/-! ### Parking -/

/-- What `_boundEarly` counts. -/
def parked : Nat :=
  s.early.entries.length + s.earlyErrors.entries.length + s.earlyComplete.entries.length

/-- One turn of the loop of `_boundEarly`. -/
def evictEarly : Machine U :=
  match s.early.entries with
  | e :: _ => { s with early := s.early.erase e.1 }
  | [] =>
      match s.earlyErrors.entries with
      | e :: _ => { s with earlyErrors := s.earlyErrors.erase e.1 }
      | [] =>
          match s.earlyComplete.entries with
          | e :: _ => { s with earlyComplete := s.earlyComplete.erase e.1 }
          | [] => s

/-- The loop of `_boundEarly`; every turn takes one away. -/
def boundLoop : Nat → Machine U → Machine U
  | 0, s => s
  | turns + 1, s => if parkedLimit < s.parked then boundLoop turns s.evictEarly else s

/-- `_boundEarly`. -/
def boundEarly : Machine U := boundLoop s.parked s

def wsParked : Nat := (s.wsEarly.entries.map fun e => e.2.length).sum

/-- The loop of `_boundWsEarly`. -/
def boundWsLoop : Nat → Machine U → Machine U
  | 0, s => s
  | turns + 1, s =>
      if parkedLimit < s.wsParked then
        match s.wsEarly.entries with
        | e :: _ =>
            boundWsLoop turns ({ s with wsEarly := s.wsEarly.erase e.1 }.emit (.evicted e.1))
        | [] => s
      else s

/-- `_boundWsEarly`. -/
def boundWsEarly : Machine U := boundWsLoop s.wsEarly.entries.length s

/-! ### WebSocket sessions -/

/-- `_finish`: `_closeLocal` and `_remoteClose`; `_onDone` drops the connection's entries. -/
def finish (i : Nat) (code : Int) : Machine U :=
  match s.sessions[i]? with
  | none => s
  | some session =>
      if session.done then s
      else
        { s with
          sessions := s.sessions.set i { session with done := true, closeCode := some code }
          wsSessions := s.wsSessions.erase session.id
          wsAcked := s.wsAcked.erase session.id }.emit (.wsClose i session.id code)

/-- `_add`. -/
def addMessage (i : Nat) (message : WsMessage) : Machine U :=
  match s.sessions[i]? with
  | none => s
  | some session =>
      if session.done then s
      else if host.wsMaxBufferBytes < session.inboundBuffered + message.size then s.finish i 1009
      else
        { s with
          sessions := s.sessions.set i { session with
            messages := session.messages ++ [message]
            inboundBuffered := session.inboundBuffered + message.size } }

/-- `_deliverWs`, from the inflated payload on. -/
def deliverPayload (i : Nat) (kind : Nat) (bytes : Bytes) : Machine U :=
  if kind = 1 then
    match utf8Decode bytes with
    | some text => s.addMessage host i (.text text)
    | none => s.finish i 1007
  else s.addMessage host i (.binary bytes)

def noteOffered (i : Nat) (frame : Frame) : Machine U :=
  { s with sessions := s.sessions.modify i fun session =>
      { session with offered := session.offered ++ [frame] } }

/-- `_deliverWs`. -/
def deliverWs (i : Nat) (frame : Frame) : Machine U :=
  let s := s.noteOffered i frame
  if frame.kind = 8 then s.finish i frame.aux
  else if frame.aux = 1 then
    match host.inflate frame.bytes host.wsMaxBufferBytes with
    | .bytes bytes => s.deliverPayload host i frame.kind bytes
    | .tooBig => s.finish i 1009
    | .undecodable => s.finish i 1007
  else s.deliverPayload host i frame.kind frame.bytes

def isDone (i : Nat) : Bool := (s.sessions[i]?.map Session.done).getD true

/-- The replay of `_runWs`: a close among the frames ends it. -/
def replay (i : Nat) : List Frame → Machine U → Machine U
  | [], s => s
  | frame :: frames, s => if s.isDone i then s else replay i frames (s.deliverWs host i frame)

def setPhase (i : Nat) (phase : Phase) : Machine U :=
  { s with sessions := s.sessions.modify i fun session => { session with phase := phase } }

/-- `_runWs` of the session `i` of the connection `id`. -/
def runWs (i : Nat) : Machine U :=
  let frames := (s.wsEarly.find id).getD []
  let s := { s with wsEarly := s.wsEarly.erase id }
  ((replay host i frames s).setPhase i .running).emit (.wsRun i)

/-- A new session in the tables. -/
def openWs (context : Context) : Machine U :=
  let session : Session := { id := id, compressed := host.compressed context }
  { s with
    pending := s.pending.erase id
    sessions := s.sessions ++ [session]
    wsSessions := s.wsSessions.set id s.sessions.length
    wsOpened := s.wsOpened.add id }.emit (.upgrade id context)

/-- `_dispatchWs`, up to the gate's verdict. -/
def dispatchWs (context : Context) (ws : WsEntry U) : Machine U :=
  let opened := s.openWs host id context
  if host.isIdentity ws.gate then opened.runWs host id s.sessions.length else opened

/-- What `_dispatchWs` does with the gate's verdict: a status, or none when it threw. -/
def gateVerdict (i : Nat) (status : Option Int) : Machine U :=
  if status = some 101 then s.runWs host id i
  else
    let s := { s with wsEarly := s.wsEarly.erase id }.setPhase i .turnedAway
    match status with
    | some status => s.finish i (if 400 ≤ status ∧ status < 500 then 4000 + status else 1008)
    | none => s.finish i 1011

/-- A frame is copied, counted and acknowledged. -/
def ackFrame (frame : Frame) : Machine U :=
  let acked := (s.wsAcked.find id).getD 0 + 1
  ({ s with wsAcked := s.wsAcked.set id acked }.emit (.receivedFrame id frame)).emit
    (.ack id acked)

/-- `_onWsMessage`. -/
def onWsMessage (frame : Frame) : Machine U :=
  if s.closed then s
  else
    let s := s.ackFrame id frame
    match s.wsSessions.find id with
    | some i => s.deliverWs host i frame
    | none =>
        if s.wsOpened.contains id then s
        else
          { s with
            wsEarly := s.wsEarly.set id ((s.wsEarly.find id).getD [] ++ [frame]) }.boundWsEarly

def compressThreshold : Nat := 256

/-- `_send`. -/
def wsSend (i : Nat) (payload : Bytes) (binary : Bool) : Machine U :=
  match s.sessions[i]? with
  | none => s
  | some session =>
      if session.done then s
      else
        let deflate := session.compressed && compressThreshold ≤ payload.length
        let wire := if deflate then host.deflate payload else payload
        s.emit (.wsSend session.id wire binary deflate)

/-- The handler's listener gets the next message. -/
def wsConsume (i : Nat) : Option (Machine U) :=
  match s.sessions[i]? with
  | none => none
  | some session =>
      session.messages[session.consumed]?.map fun message =>
        { s with
          sessions := s.sessions.set i { session with
            consumed := session.consumed + 1
            inboundBuffered := session.inboundBuffered - message.size } }

/-! ### Requests -/

/-- `run` the handler of an entry, or the not-found fallback. -/
def runHandler (answerer : Answerer U) (context : Context) : Machine U :=
  { s with waiting := s.waiting ++ [id] }.emit (.run id answerer context)

def contextOf (p : Pending) : Context where
  method := p.head.method
  customMethod := p.head.customMethod
  path := p.head.path
  query := p.head.query
  packedHeaders := p.head.packedHeaders
  params := p.head.params
  routePattern := p.head.routePattern
  body := p.body
  bodyStream := p.streaming
  clientIp := p.head.clientIp

/-- `_entryFor` a head. -/
def entryFor (head : Head) : Option (Entry U) :=
  s.tables.entryFor head.method head.customMethod head.routePattern

/-- `_dispatch` the pending request of `id`. -/
def dispatch : Machine U :=
  match s.pending.find id with
  | none => s
  | some p =>
      if p.dispatched then s
      else
        let s := { s with pending := s.pending.set id { p with dispatched := true } }
        if p.error.isSome then s.complete id
        else
          match s.entryFor p.head with
          | some e => s.runHandler id (.handler e.piped) (contextOf p)
          | none =>
              match s.tables.wsHandlers.lookup p.head.routePattern with
              | some ws => s.dispatchWs host id (contextOf p) ws
              | none => s.runHandler id (.notFound s.tables.notFoundHandler) (contextOf p)

/-- The entry `_onHead` makes, with what was parked for it. -/
def taken (head : Head) : Pending where
  head := head
  body := ((s.early.find head.requestId).getD []).flatten
  error := s.earlyErrors.find head.requestId

/-- `_onHead` of a new request, up to where it is decided whether it is complete. -/
def takeIn (head : Head) : Machine U :=
  { s with
    pending := s.pending.set head.requestId (s.taken head)
    early := s.early.erase head.requestId
    earlyErrors := s.earlyErrors.erase head.requestId }

def putPending (p : Pending) : Machine U := { s with pending := s.pending.set id p }

/-- `_onHead`. -/
def onHead (head : Head) : Machine U :=
  let id := head.requestId
  if s.closed || s.completed.contains id || (s.pending.find id).isSome then s
  else
    let p := s.taken head
    let s := s.takeIn head
    -- the parked end is looked for, and removed, only when a body is to come
    if !head.hasBody || head.bodyComplete then
      (s.putPending id { p with complete := true }).dispatch host id
    else if (s.earlyComplete.find id).isSome then
      ({ s with earlyComplete := s.earlyComplete.erase id }.putPending id
        { p with complete := true }).dispatch host id
    else if ((s.entryFor head).map Entry.streamBody).getD false then
      let chunks := if p.body = [] then [] else [p.body]
      let s := { s with uploads := s.uploads.set id { chunks := chunks } }
      ((s.putPending id { p with body := [], streaming := true }).ackNow id).dispatch host id
    else s

/-- `_onChunk` of data. -/
def onData (bytes : Bytes) : Machine U :=
  if s.completed.contains id then (s.emit (.received id)).emit (.ack id 1)
  else
    let s := s.copyChunk id
    match s.pending.find id with
    | none => { s with early := s.early.set id ((s.early.find id).getD [] ++ [bytes]) }.boundEarly
    | some p =>
        if p.streaming then
          match s.uploads.find id with
          | some u =>
              -- adding to a closed controller throws out of the callback
              if u.closed then s
              else { s with
                uploads := s.uploads.set id { u with chunks := u.chunks ++ [bytes] } }.ackNow id
          | none => s
        else if !p.complete then s.putPending id { p with body := p.body ++ bytes }
        else s

/-- `_onChunk` of an error. -/
def onError (message : Bytes) : Machine U :=
  let s := s.copyChunk id
  match s.pending.find id with
  | none => { s with earlyErrors := s.earlyErrors.set id message }.boundEarly
  | some p =>
      if p.streaming then
        match s.uploads.find id with
        | some u =>
            if u.closed then s
            else { s with uploads := s.uploads.set id { u with error := some message } }.ackNow id
        | none => s
      else if !p.complete then s.putPending id { p with error := some message }
      else s

/-- `_onChunk` of an end marker. -/
def onEnd : Machine U :=
  match s.pending.find id with
  | none => { s with earlyComplete := s.earlyComplete.set id () }.boundEarly
  | some p =>
      if p.streaming then (s.putPending id { p with complete := true }).closeUpload id
      else if !p.complete then (s.putPending id { p with complete := true }).dispatch host id
      else s

/-- `_onChunk`. -/
def onChunk (chunk : Chunk) : Machine U :=
  if s.closed then s
  else
    match chunk with
    | .data bytes => s.onData id bytes
    | .error message => s.onError id message
    | .end_ => s.onEnd host id

/-- `_onEvent`; `retires` says that it is a disconnect or a timeout. -/
def onEvent (retires : Bool) : Machine U :=
  if s.closed then s
  else if retires then { s with outbound := s.outbound.erase id }.complete id
  else s

/-! ### Answers -/

/-- `_answer` and `_answerFile`: nothing goes out when the runner is closed. -/
def answerNow (response : Response) : Machine U :=
  if s.closed then s else s.emit (.answer id response)

/-- `_answerStream`; `opened` says whether `startStream` returns. -/
def answerStream (response : Response) (opened : Bool) : Machine U :=
  if s.closed then s
  else if opened then { s with outbound := s.outbound.set id () }.emit (.answer id response)
  else s.complete id

/-- `_deliver`. -/
def deliver (response : Response) (opened : Bool) : Machine U :=
  if s.completed.contains id && (s.pending.find id).isNone then s
  else
    let (response, events) := gate host.lib host.serverHeader response
    let s := events.foldl (fun s message => s.emit (.event id message)) s
    match response.content with
    | .stream _ => s.answerStream id response opened
    | _ => (s.answerNow id response).complete id

/-- `_finishStream`. -/
def finishStream : Machine U :=
  let s := { s with outbound := s.outbound.erase id }
  (if s.closed then s else s.emit (.lastChunk id)).complete id

/-- `_shutdown`. -/
def shutdown (i : Nat) : Machine U :=
  { s with sessions := s.sessions.modify i fun session =>
      if session.done then session
      else { session with done := true, closeCode := session.closeCode.orElse fun _ => some 1006 } }

/-- `close`. -/
def close : Machine U :=
  if s.closed then s
  else
    let s := s.wsSessions.entries.foldl (fun s e => s.shutdown e.2) { s with closed := true }
    { s with outbound := .empty, wsSessions := .empty, wsEarly := .empty, wsAcked := .empty }

end Machine

/-! ### Runs -/

/-- A callback of the runner, or something user code does. -/
inductive Act (U : UserCode) where
  | head (head : Head)
  | chunk (id : Int64) (chunk : Chunk)
  | event (id : Int64) (retires : Bool)
  | answer (id : Int64) (response : Response) (opened : Bool)
  | streamEnded (id : Int64)
  | wsMessage (id : Int64) (frame : Frame)
  | gateVerdict (session : Nat) (status : Option Int)
  | wsReturned (session : Nat) (threw : Bool)
  | wsConsume (session : Nat)
  | wsClose (session : Nat) (code : Int)
  | wsSend (session : Nat) (payload : Bytes) (binary : Bool)
  | call (call : Call U)
  | close

namespace Machine

variable {U : UserCode} (host : Host U)

/-- The session `i`, when its gate or handler stands at `phase`. -/
def sessionAt (s : Machine U) (i : Nat) (phase : Phase) : Option Session :=
  s.sessions[i]?.filter fun session => session.phase = phase

/-- One step of a run; an answer needs a handler that has not returned, the end of a body stream
one that is being sent, a verdict a session at its gate. -/
def step (s : Machine U) : Act U → Option (Machine U)
  | .head head => some (s.onHead host head)
  | .chunk id chunk => some (s.onChunk host id chunk)
  | .event id retires => some (s.onEvent id retires)
  | .answer id response opened =>
      if id ∈ s.waiting then
        some ({ s with waiting := s.waiting.erase id }.deliver host id response opened)
      else none
  | .streamEnded id => (s.outbound.find id).map fun _ => s.finishStream id
  | .wsMessage id frame => some (s.onWsMessage host id frame)
  | .gateVerdict i status =>
      (s.sessionAt i .gating).map fun session => s.gateVerdict host session.id i status
  | .wsReturned i threw =>
      (s.sessionAt i .running).map fun _ => s.finish i (if threw then 1011 else 1000)
  | .wsConsume i => s.wsConsume i
  | .wsClose i code => some (s.finish i code)
  | .wsSend i payload binary => some (s.wsSend host i payload binary)
  | .call call => some { s with tables := s.tables.call call }
  | .close => some s.close

end Machine

/-- The runner of the sample runs. -/
def sampleHost : Host sampleCode where
  lib := { toLowerCase := id, malformed := fun _ => [] }
  serverHeader := none
  wsMaxBufferBytes := 16
  isIdentity := fun _ => false
  compressed := fun _ => false
  deflate := id
  inflate := fun bytes _ => .bytes bytes

def sampleHead (id : Int64) (hasBody : Bool) : Head where
  requestId := id
  method := .post
  customMethod := []
  path := []
  query := []
  packedHeaders := []
  params := []
  routePattern := []
  hasBody := hasBody
  bodyComplete := !hasBody
  clientIp := []

def sampleAnswer : Response where
  status := 200
  headers := .empty
  cookies := []
  content := .body []

end NitroServer.Runner
