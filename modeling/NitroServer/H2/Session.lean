/-
One HTTP/2 connection (`src/engine/Http2Session.h`, `Http2Session.cpp`).

The frame layer is nghttp2's: it parses the bytes `feed` hands it and calls back
(`onBeginHeaders`, `onHeader`, `onDataChunk`, `onFrameRecv`, `onStreamClose`), and it is
told of answers with `nghttp2_submit_response`. The callbacks and the calls the reactor
makes (`respond`, `sweep`, `goAway`, `stop`) are functions on a `Session`; the calls of
`nghttp2_submit_response`, the calls of the emitter and the ids that `sweep` returns are
kept as logs. `deliver` says in which order nghttp2 calls back, from what it has received
on each stream, and `step` puts the two together.

A stream's response offset and the scratch arrays of `nghttp2_nv` are read by nghttp2
alone and are left out, as is the client address. Byte counts and times are integers
without a bound: for a budget below 2^62 no sum that the session forms leaves `int64_t`.
-/

import NitroServer.Lib.Run
import NitroServer.Lib.Table
import NitroServer.Engine.Framing
import NitroServer.Engine.WsCodec

namespace NitroServer.H2

open Engine Lib

/-! ### State -/

/-- `Http2Session::Stream`. -/
structure Stream where
  requestId : Nat := 0
  method : Method := .get
  customMethod : Bytes := []
  path : Bytes := []
  query : Bytes := []
  scheme : Bytes := []
  authority : Bytes := []
  headers : List Header := []
  contentLength : Int := -1
  rejected : Bool := false
  matched : Bool := false
  pattern : Bytes := []
  params : List RouteParam := []
  maxBody : Int := -1
  reserved : Int := 0
  timeoutMs : Int := 0
  emitted : Bool := false
  hasDeadline : Bool := false
  deadline : Int := 0
  lastProgress : Int := 0
  body : Bytes := []
  respBody : Bytes := []
deriving DecidableEq, Repr

/-- One call of `nghttp2_submit_response`; `body` is what the data provider reads. -/
structure Submit where
  streamId : Nat
  status : Nat
  headers : List Header
  body : Option Bytes
deriving DecidableEq, Repr

/-- One call of the emitter. -/
inductive Emit where
  | head (requestId : Nat) (method : Method) (customMethod path query : Bytes)
      (headers : List Header) (contentLength : Int) (hasBody bodyComplete : Bool)
      (pattern : Bytes) (params : List RouteParam)
  | bodyData (requestId : Nat) (payload : Bytes)
  | bodyEnd (requestId : Nat)
deriving DecidableEq, Repr

structure Session where
  streams : Table Nat Stream := .empty
  reqToStream : Table Nat Nat := .empty
  reserved : Int := 0
  goawaySent : Bool := false
  stopped : Bool := false
  nextId : Nat := 1
  submits : List Submit := []
  emits : List Emit := []
  expired : List Nat := []

/-- What a session is constructed with. -/
structure Setup where
  router : Router
  maxBodyBytes : Int := -1
  defaultTimeoutMs : Int := 0
  bodyBudget : Int := 0

/-- `headers.cat`: the header block that opens a request, or a later one (trailers). -/
inductive Category where
  | request | headers
deriving DecidableEq, Repr

inductive FrameType where
  | headers (cat : Category)
  | data
  | other
deriving DecidableEq, Repr

structure Frame where
  type : FrameType
  streamId : Nat
  endStream : Bool
deriving DecidableEq, Repr

/-! ### Header fields -/

def digitsValue (ds : Bytes) : Nat := ds.foldl (fun n b => n * 10 + (b.toNat - 48)) 0

def isDigits (ds : Bytes) : Bool := ds ≠ [] && ds.all fun b => 48 ≤ b && b ≤ 57

/-- `std::from_chars` into an `int64_t`, as `content-length` is read: −1 unless the whole
value is a number that is not negative and fits. -/
def contentLengthOf (v : Bytes) : Int :=
  match v with
  | 45 :: ds => if isDigits ds ∧ digitsValue ds = 0 then 0 else -1
  | ds => if isDigits ds ∧ digitsValue ds < 2 ^ 63 then digitsValue ds else -1

/-- A field of the request's header block. -/
def Stream.addHeader (st : Stream) (name value : Bytes) : Stream :=
  if name = ascii ":method" then
    { st with
      method := (parseMethod value).1
      customMethod := if (parseMethod value).1 = .custom then value else st.customMethod }
  else if name = ascii ":path" then
    match value.findIdx? (· == 63) with
    | none => { st with path := value }
    | some q => { st with path := value.take q, query := value.drop (q + 1) }
  else if name = ascii ":scheme" then { st with scheme := value }
  else if name = ascii ":authority" then { st with authority := value }
  else
    { st with
      contentLength :=
        if name = ascii "content-length" then contentLengthOf value else st.contentLength
      headers := st.headers ++ [⟨name, value⟩] }

namespace Session

/-! ### Callbacks -/

/-- A stream's state is stored. -/
def put (s : Session) (streamId : Nat) (st : Stream) : Session :=
  { s with streams := s.streams.set streamId st }

/-- `rejectStream`. -/
def rejectStream (s : Session) (streamId : Nat) (st : Stream) (status : Nat)
    (extra : List Header) : Session :=
  { s.put streamId { st with rejected := true, body := [] } with
    submits := s.submits ++ [⟨streamId, status, extra, none⟩] }

def retryAfter : List Header := [⟨ascii "retry-after", ascii "1"⟩]

/-- `onHeader`. -/
def onHeader (s : Session) (streamId : Nat) (cat : Category) (name value : Bytes) : Session :=
  if cat ≠ .request then s
  else
    match s.streams.find streamId with
    | none => s
    | some st =>
        if st.rejected then s
        else if !Ws.validUtf8 value then s.rejectStream streamId st 400 []
        else if name.any (0x80 ≤ ·) then s.rejectStream streamId st 400 []
        else s.put streamId (st.addHeader name value)

/-- `onDataChunk`. -/
def onDataChunk (s : Session) (streamId : Nat) (data : Bytes) (now : Int) : Session :=
  match s.streams.find streamId with
  | none => s
  | some st =>
      if st.rejected then s
      else if 0 < st.maxBody ∧ st.maxBody < st.body.length + data.length then
        s.rejectStream streamId { st with lastProgress := now } 413 []
      else s.put streamId { st with lastProgress := now, body := st.body ++ data }

/-- `onStreamClose`. -/
def onStreamClose (s : Session) (streamId : Nat) : Session :=
  match s.streams.find streamId with
  | none => s
  | some st =>
      { s with
        reserved := s.reserved - st.reserved
        reqToStream := s.reqToStream.erase st.requestId
        streams := s.streams.erase streamId }

end Session

/-- The `Allow` field of a 405. -/
def allowValue (allowed : List Bytes) : Bytes :=
  allowed.foldl (fun allow m => allow ++ (if allow = [] then [] else ascii ", ") ++ m) []

namespace Session

section Callbacks

variable (cfg : Setup)

/-- `onBeginHeaders`. -/
def onBeginHeaders (s : Session) (streamId : Nat) (cat : Category) (now : Int) : Session :=
  if cat ≠ .request then s
  else s.put streamId { maxBody := cfg.maxBodyBytes, lastProgress := now }

/-- The request is handed to the emitter under a fresh id. -/
def dispatch (s : Session) (streamId : Nat) (st : Stream) (now : Int) : Session :=
  let hasBody := !st.body.isEmpty
  { s with
    nextId := s.nextId + 1
    reqToStream := s.reqToStream.set s.nextId streamId
    streams := s.streams.set streamId { st with
      requestId := s.nextId
      emitted := true
      deadline := if 0 < st.timeoutMs then now + st.timeoutMs else st.deadline
      hasDeadline := if 0 < st.timeoutMs then true else st.hasDeadline
      body := [] }
    emits := s.emits ++
      [.head s.nextId st.method st.customMethod st.path st.query st.headers st.contentLength
        hasBody (!hasBody) st.pattern st.params] ++
      (if hasBody then [.bodyData s.nextId st.body] else []) ++ [.bodyEnd s.nextId] }

/-- `emitComplete`; `admitted` is the answer of the admission check. -/
def emitComplete (s : Session) (streamId : Nat) (st : Stream) (now : Int) (admitted : Bool) :
    Session :=
  if !admitted then s.rejectStream streamId st 503 retryAfter
  else if !st.matched ∧ cfg.router.allowedMethods st.path ≠ [] then
    s.rejectStream streamId st 405
      [⟨ascii "allow", allowValue (cfg.router.allowedMethods st.path)⟩]
  else s.dispatch streamId st now

/-- The header block is complete: route the stream. -/
def route (st : Stream) (now : Int) : Stream :=
  match cfg.router.match st.method st.customMethod st.path with
  | none =>
      { st with lastProgress := now, matched := false, timeoutMs := cfg.defaultTimeoutMs }
  | some (r, params) =>
      { st with
        lastProgress := now
        matched := true
        pattern := r.pattern
        params := params
        maxBody := if 0 ≤ r.maxBodyBytes then r.maxBodyBytes else st.maxBody
        timeoutMs := if 0 ≤ r.timeoutMs then r.timeoutMs else cfg.defaultTimeoutMs }

/-- A declared body over the cap is refused before it arrives. -/
def refuseDeclared (s : Session) (streamId : Nat) (st : Stream) : Session :=
  if !st.rejected ∧ 0 < st.maxBody ∧ st.maxBody < st.contentLength then
    s.rejectStream streamId st 413 []
  else s.put streamId st

/-- What a stream may come to buffer. -/
def want (st : Stream) (bodyless : Bool) : Int :=
  if bodyless then 0
  else if 0 ≤ st.contentLength then st.contentLength
  else if 0 < st.maxBody then st.maxBody
  else cfg.bodyBudget + 1

/-- The session's body budget. -/
def reserve (s : Session) (streamId : Nat) (bodyless : Bool) : Session :=
  match s.streams.find streamId with
  | none => s
  | some st =>
      if !st.rejected ∧ 0 < cfg.bodyBudget then
        if cfg.bodyBudget < want cfg st bodyless then s.rejectStream streamId st 413 []
        else if cfg.bodyBudget < s.reserved + want cfg st bodyless then
          s.rejectStream streamId st 503 retryAfter
        else
          { s.put streamId { st with reserved := want cfg st bodyless } with
            reserved := s.reserved + want cfg st bodyless }
      else s

/-- The first half of `onFrameRecv`: the HEADERS frame of a request. -/
def onRequestHeaders (s : Session) (streamId : Nat) (endStream : Bool) (now : Int) : Session :=
  match s.streams.find streamId with
  | none => s
  | some st => (s.refuseDeclared streamId (route cfg st now)).reserve cfg streamId endStream

/-- The second half: END_STREAM. -/
def onEndStream (s : Session) (streamId : Nat) (now : Int) (admitted : Bool) : Session :=
  match s.streams.find streamId with
  | none => s
  | some st => if st.rejected then s else s.emitComplete cfg streamId st now admitted

/-- `onFrameRecv`. -/
def onFrameRecv (s : Session) (frame : Frame) (now : Int) (admitted : Bool) : Session :=
  let s :=
    if frame.type = .headers .request then
      s.onRequestHeaders cfg frame.streamId frame.endStream now
    else s
  if frame.type ≠ .other ∧ frame.endStream then s.onEndStream cfg frame.streamId now admitted else s

end Callbacks

/-! ### Calls of the reactor -/

/-- The body of the loop of `sweep`, for one entry of `streams_`. -/
def sweepStream (now bodyStallMs : Int) (s : Session) (e : Nat × Stream) : Session :=
  let st := e.2
  if st.rejected then s
  else if st.emitted then
    if st.hasDeadline ∧ st.deadline ≤ now then
      { s with
        expired := s.expired ++ [st.requestId]
        reqToStream := s.reqToStream.erase st.requestId }.rejectStream e.1 st 408 []
    else s
  else if 0 < bodyStallMs ∧ bodyStallMs ≤ now - st.lastProgress then
    s.rejectStream e.1 st 408 []
  else s

/-- `sweep`; the ids it returns are appended to `expired`. -/
def sweep (s : Session) (now bodyStallMs : Int) : Session :=
  if s.stopped then s else s.streams.entries.foldl (sweepStream now bodyStallMs) s

/-- The answer is submitted on the stream. -/
def answer (s : Session) (streamId : Nat) (st : Stream) (status : Nat) (headers : List Header)
    (body : Bytes) : Session :=
  let respBody := if st.method = .head ∨ bodyless status then [] else body
  { s.put streamId { st with respBody := respBody } with
    submits := s.submits ++
      [⟨streamId, status, headers, if respBody = [] then none else some respBody⟩] }

/-- `respond`. -/
def respond (s : Session) (requestId status : Nat) (headers : List Header) (body : Bytes) :
    Session :=
  if s.stopped then s
  else
    match s.reqToStream.find requestId with
    | none => s
    | some streamId =>
        match s.streams.find streamId with
        | none => s
        | some st => s.answer streamId st status headers body

/-- `goAway`. -/
def goAway (s : Session) : Session :=
  if s.goawaySent ∨ s.stopped then s else { s with goawaySent := true }

/-- `stop`. -/
def stop (s : Session) : Session := { s with stopped := true }

end Session

/-! ### What nghttp2 delivers -/

/-- What has arrived on an open stream: whether the request's header block and the end of
the stream were delivered, the declared length and the DATA bytes so far. -/
structure Arrived where
  headersDone : Bool := false
  ended : Bool := false
  declared : Option Nat := none
  received : Nat := 0
deriving DecidableEq, Repr

/-- The streams nghttp2 has open and the last id a client has used. -/
structure Wire where
  streams : Table Nat Arrived := .empty
  lastStream : Nat := 0

inductive Event where
  | beginHeaders (streamId : Nat) (cat : Category) (now : Int)
  | header (streamId : Nat) (cat : Category) (name value : Bytes)
  | dataChunk (streamId : Nat) (data : Bytes) (now : Int)
  | frame (frame : Frame) (now : Int) (admitted : Bool)
  | streamClose (streamId : Nat)
  | respond (requestId status : Nat) (headers : List Header) (body : Bytes)
  | sweep (now bodyStallMs : Int)
  | goAway
  | stop
  /-- Other sessions of the reactor take ids from the shared counter. -/
  | idsTaken (n : Nat)
deriving DecidableEq, Repr

/-- nghttp2's own reading of `content-length`: digits only, within `int64_t`. -/
def declaredLength (v : Bytes) : Option Nat :=
  if isDigits v ∧ digitsValue v < 2 ^ 63 then some (digitsValue v) else none

namespace Wire

/-- A field of the request: a second or ill-formed `content-length` is not delivered. -/
def field (a : Arrived) (name value : Bytes) : Option Arrived :=
  if name = ascii "content-length" then
    if a.declared.isSome then none
    else (declaredLength value).map fun n => { a with declared := some n }
  else some a

/-- The stream's next state, when nghttp2 makes the callback. -/
def onStream (a : Arrived) : Event → Option Arrived
  | .beginHeaders _ _ _ => if a.headersDone ∧ ¬ a.ended then some a else none
  | .header _ .request name value => if a.headersDone then none else field a name value
  | .header _ .headers _ _ => if a.headersDone ∧ ¬ a.ended then some a else none
  | .dataChunk _ data _ =>
      if a.headersDone ∧ ¬ a.ended ∧ ∀ n ∈ a.declared, a.received + data.length ≤ n then
        some { a with received := a.received + data.length }
      else none
  | .frame f _ _ =>
      match f.type with
      | .headers .request =>
          if a.headersDone then none else some { a with headersDone := true, ended := f.endStream }
      | _ => if a.headersDone ∧ ¬ a.ended then some { a with ended := f.endStream } else none
  | _ => none

def update (w : Wire) (streamId : Nat) (ev : Event) : Option Wire := do
  let a ← w.streams.find streamId
  let a' ← onStream a ev
  return { w with streams := w.streams.set streamId a' }

/-- Whether nghttp2 makes this callback next, and what it has delivered then. Stream ids
of a client increase, a header block is followed by its HEADERS frame, DATA and trailers
come behind the request's header block and before END_STREAM, and DATA beyond the declared
length is refused. -/
def deliver (w : Wire) (ev : Event) : Option Wire :=
  match ev with
  | .beginHeaders streamId .request _ =>
      if w.lastStream < streamId then
        some { streams := w.streams.set streamId {}, lastStream := streamId }
      else none
  | .beginHeaders streamId .headers _ => w.update streamId ev
  | .header streamId _ _ _ => w.update streamId ev
  | .dataChunk streamId _ _ => w.update streamId ev
  | .frame f _ _ => if f.type = .other then some w else w.update f.streamId ev
  | .streamClose streamId =>
      if (w.streams.find streamId).isSome then
        some { w with streams := w.streams.erase streamId }
      else none
  | .respond _ _ _ _ | .sweep _ _ | .goAway | .stop | .idsTaken _ => some w

end Wire

/-! ### Steps -/

/-- The callbacks made from `feed`, which a stopped session ignores. -/
def Event.isInbound : Event → Bool
  | .beginHeaders _ _ _ | .header _ _ _ _ | .dataChunk _ _ _ | .frame _ _ _ => true
  | _ => false

structure World where
  session : Session := {}
  wire : Wire := {}

section Step

variable (cfg : Setup)

/-- What the session does with an event. -/
def Session.handle (s : Session) : Event → Session
  | .beginHeaders streamId cat now => s.onBeginHeaders cfg streamId cat now
  | .header streamId cat name value => s.onHeader streamId cat name value
  | .dataChunk streamId data now => s.onDataChunk streamId data now
  | .frame f now admitted => s.onFrameRecv cfg f now admitted
  | .streamClose streamId => s.onStreamClose streamId
  | .respond requestId status headers body => s.respond requestId status headers body
  | .sweep now bodyStallMs => s.sweep now bodyStallMs
  | .goAway => s.goAway
  | .stop => s.stop
  | .idsTaken n => { s with nextId := s.nextId + n }

def step (w : World) (ev : Event) : Option World :=
  if ev.isInbound ∧ w.session.stopped then none
  else (w.wire.deliver ev).map fun wire => ⟨w.session.handle cfg ev, wire⟩

/-- The states a session comes to. -/
abbrev Reachable (w : World) : Prop := Reaches (stepOf (step cfg)) anyStep {} w

end Step

end NitroServer.H2
