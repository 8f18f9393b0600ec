/-
The tables that all connections of the reactor share (`UvReactor.h`, `UvReactor.cpp`).

`reqLoc_` says where the answer of a dispatched request goes, `h2StreamAccum_` buffers a
streamed answer until its last chunk, and each loop has an inbox of answers. The runner
calls `respond`, `respondFile`, `startStream` and `sendStreamChunk` on threads of its own;
each locks `reqMutex_` once or twice and the inbox once, and anything may happen in
between. So a call is a sequence of critical sections: `calls` holds what each call that
is under way has still to do, and `proceed` performs one section of one of them.

HTTP/2 connections carry their session (`H2.World`). What an HTTP/1.1 or WebSocket
connection does is followed in `Engine`: here it registers requests and retires them, and
its writes are left out. The parser of a connection acts behind an open gate only, where
the connection has no request in the table (`Lane.Sound.of_open`); so the switch to HTTP/2
or to a session asks for that. What a loop thread does between two sections of its own
(the ids that a sweep returns, retired one by one) may be interleaved with anything, too.
-/

import NitroServer.H2.Responses
import NitroServer.Engine.Loop

namespace NitroServer.InFlight

open Engine (Bytes Header ascii)
open Lib

/-! ### State -/

/-- `ReqLoc`. -/
structure ReqLoc where
  loopIdx : Nat
  connId : Nat
  isHead : Bool
  keepAlive : Bool
  isH2 : Bool := false
deriving DecidableEq, Repr

/-- `H2StreamAccum`: a streamed HTTP/2 answer so far. -/
structure H2StreamAccum where
  status : Nat
  headers : List Header
  body : Bytes
deriving DecidableEq, Repr

/-- `Loop::Pending` of an HTTP/2 answer. -/
structure Pending where
  loopIdx : Nat
  connId : Nat
  h2ReqId : Nat
  h2Status : Nat
  h2Headers : List Header
  bytes : Bytes
deriving DecidableEq, Repr

/-- What a connection speaks. -/
inductive Kind where
  | http
  | ws
  | h2 (world : H2.World)

def Kind.isWs : Kind → Bool
  | .ws => true
  | _ => false

structure Conn where
  loopIdx : Nat
  kind : Kind := .http
  closing : Bool := false

/-- What a call under way has still to do. -/
inductive Call where
  /-- `startStream`, past its lookup. -/
  | opening (id : Nat) (loc : ReqLoc) (status : Nat) (headers : List Header)
  /-- `sendStreamChunk`, past its lookup. -/
  | adding (id : Nat) (loc : ReqLoc) (chunk : Bytes) (last : Bool)
  /-- `respondFile`, about to call `respond`. -/
  | filing (id status : Nat) (headers : List Header) (body : Bytes)
  /-- An answer on its way to the inbox. -/
  | queueing (p : Pending)
  /-- A `lookupReq(id, loc, erase=true)` to come. -/
  | retiring (id : Nat)
deriving DecidableEq, Repr

/-- One call of `Http2Session::respond`, and what it submits. -/
structure Respond where
  answer : Pending
  submit : Option H2.Submit
deriving DecidableEq, Repr

structure UvReactor where
  conns : Table Nat Conn := .empty
  reqLoc : Table Nat ReqLoc := .empty
  h2StreamAccum : Table Nat H2StreamAccum := .empty
  nextId : Nat := 1
  calls : List Call := []
  queue : List Pending := []
  running : Bool := true
  draining : Bool := false
  responds : List Respond := []

/-- What the reactor's HTTP/2 side is configured with. -/
structure Config extends H2.Setup where
  maxInFlightRequests : Int := 0

variable (cfg : Config)

namespace UvReactor

/-! ### Calls of the runner -/

/-- A call goes on. -/
def start (h : UvReactor) (c : Call) : UvReactor := { h with calls := h.calls ++ [c] }

/-- The request's entry goes. -/
def eraseReq (h : UvReactor) (id : Nat) : UvReactor := { h with reqLoc := h.reqLoc.erase id }

/-- `respond`. -/
def respond (h : UvReactor) (id status : Nat) (headers : List Header) (body : Bytes) : UvReactor :=
  if ¬ h.running then h
  else match h.reqLoc.find id with
    | none => h
    | some loc =>
        if loc.isH2 then
          (h.eraseReq id).start (.queueing ⟨loc.loopIdx, loc.connId, id, status, headers, body⟩)
        else h.eraseReq id

/-- The 404 of `respondFile`. -/
def respondNotFound (h : UvReactor) (id : Nat) : UvReactor :=
  h.respond id 404 [⟨ascii "Content-Type", ascii "text/plain"⟩] (ascii "not found")

/-- `uv_fs_read` of `n` bytes at an offset, in one call. The size of the buffer is an `unsigned`
and the result an `int`; the file system returns `got` bytes, or as many as the buffer takes. A
result other than `n` leaves no body. -/
def readOnce (file : Bytes) (offset n got : Nat) : Bytes :=
  if ((min got (n % 2 ^ 32) : Nat) : Int).bmod (2 ^ 32) = n then (file.drop offset).take n else []

/-- `respondFile`; `file` is the regular file at the path, if there is one, and `got` what a read
of it returns. -/
def respondFile (h : UvReactor) (id status : Nat) (headers : List Header) (file : Option Bytes)
    (offset length : Int) (got : Nat) : UvReactor :=
  if ¬ h.running then h
  else match file with
    | none => h.respondNotFound id
    | some bytes =>
        if bytes.length < offset.toNat then h.respondNotFound id
        else
          let n := Engine.Reactor.rangeLength bytes.length offset.toNat length
          match h.reqLoc.find id with
          | none => h
          | some loc =>
              if loc.isHead ∨ n = 0 ∨ loc.isH2 then
                h.start (.filing id status headers
                  (if loc.isHead ∨ n = 0 then [] else readOnce bytes offset.toNat n got))
              else h.start (.retiring id)

/-- `startStream`. -/
def startStream (h : UvReactor) (id status : Nat) (headers : List Header) : UvReactor :=
  if ¬ h.running then h
  else match h.reqLoc.find id with
    | none => h
    | some loc =>
        if loc.isH2 then h.start (.opening id loc status headers)
        else if loc.isHead then h.start (.retiring id)
        else h

/-- `sendStreamChunk`. -/
def sendStreamChunk (h : UvReactor) (id : Nat) (chunk : Bytes) (last : Bool) : UvReactor :=
  if ¬ h.running then h
  else if chunk = [] ∧ ¬ last then h
  else match h.reqLoc.find id with
    | none => h
    | some loc =>
        if loc.isH2 then h.start (.adding id loc chunk last)
        else if last then h.start (.retiring id)
        else h

end UvReactor

/-- The answer in place of a stream beyond the cap. -/
def overCap (loc : ReqLoc) (id : Nat) : Pending :=
  ⟨loc.loopIdx, loc.connId, id, 503, [⟨ascii "content-type", ascii "text/plain; charset=utf-8"⟩],
    ascii "response exceeded the server buffer cap"⟩

namespace UvReactor

/-- Both entries of a streamed answer go. -/
def flush (h : UvReactor) (id : Nat) : UvReactor :=
  { h with reqLoc := h.reqLoc.erase id, h2StreamAccum := h.h2StreamAccum.erase id }

/-- The next critical section of a call. -/
def perform (h : UvReactor) : Call → UvReactor
  | .opening id loc status headers =>
      if loc.isHead then
        (h.eraseReq id).start (.queueing ⟨loc.loopIdx, loc.connId, id, status, headers, []⟩)
      else { h with h2StreamAccum := h.h2StreamAccum.set id ⟨status, headers, []⟩ }
  | .adding id loc chunk last =>
      match h.h2StreamAccum.find id with
      | none => h
      | some acc =>
          if 0 < cfg.maxBodyBytes ∧ cfg.maxBodyBytes < acc.body.length + chunk.length then
            (h.flush id).start (.queueing (overCap loc id))
          else if last then
            (h.flush id).start (.queueing
              ⟨loc.loopIdx, loc.connId, id, acc.status, acc.headers, acc.body ++ chunk⟩)
          else { h with
            h2StreamAccum := h.h2StreamAccum.set id { acc with body := acc.body ++ chunk } }
  | .filing id status headers body => h.respond id status headers body
  | .queueing p => { h with queue := h.queue ++ [p] }
  | .retiring id => h.eraseReq id

/-! ### The loops -/

/-- `onAsync`, for one entry. -/
def deliver (h : UvReactor) (p : Pending) : UvReactor :=
  match h.conns.find p.connId with
  | none => h
  | some conn =>
      match conn.kind with
      | .h2 w =>
          if conn.closing then h
          else
            let session := w.session.respond p.h2ReqId p.h2Status p.h2Headers p.bytes
            { h with
              conns := h.conns.set p.connId { conn with kind := .h2 ⟨session, w.wire⟩ }
              responds := h.responds ++ [⟨p, (session.submits.drop w.session.submits.length).head?⟩] }
      | _ => h

/-- `onAsync`. -/
def onAsync (h : UvReactor) (loopIdx : Nat) : UvReactor :=
  (h.queue.filter (·.loopIdx == loopIdx)).foldl deliver
    { h with queue := h.queue.filter (·.loopIdx != loopIdx) }

/-- The ids of the connection's requests. -/
def ownIds (h : UvReactor) (connId : Nat) : List Nat :=
  (h.reqLoc.entries.filter (·.2.connId == connId)).map Prod.fst

/-- `onCloseConn`. -/
def onCloseConn (h : UvReactor) (connId : Nat) (conn : Conn) : UvReactor :=
  let closed := { h with conns := h.conns.erase connId }
  if conn.kind.isWs then closed
  else { closed with
    reqLoc := (h.ownIds connId).foldl Table.erase h.reqLoc
    h2StreamAccum := (h.ownIds connId).foldl Table.erase h.h2StreamAccum }

/-- `overInFlightBudget`. -/
def overInFlightBudget (h : UvReactor) : Bool :=
  0 < cfg.maxInFlightRequests && cfg.maxInFlightRequests ≤ h.reqLoc.entries.length

/-- What nghttp2 may call back now, and `goAway`. -/
def admits (h : UvReactor) : H2.Event → Bool
  | .frame _ _ admitted => admitted == !h.overInFlightBudget cfg
  | .beginHeaders _ _ _ | .header _ _ _ _ | .dataChunk _ _ _ | .streamClose _ | .goAway => true
  | .respond _ _ _ _ | .sweep _ _ | .stop | .idsTaken _ => false

/-- A callback of an HTTP/2 session. A request that is dispatched takes the next id, and is
registered by the allocator of `createH2Session`. -/
def onSession (h : UvReactor) (connId : Nat) (conn : Conn) (w : H2.World) (ev : H2.Event) :
    Option UvReactor :=
  (H2.step cfg.toSetup ⟨{ w.session with nextId := h.nextId }, w.wire⟩ ev).map fun w' =>
    { h with
      conns := h.conns.set connId { conn with kind := .h2 w' }
      nextId := w'.session.nextId
      reqLoc :=
        if w'.session.nextId = h.nextId then h.reqLoc
        else h.reqLoc.set h.nextId ⟨conn.loopIdx, connId, false, false, true⟩ }

/-- `onSweep`, for an HTTP/2 connection: the ids that the session returns are to be
retired. -/
def onSweep (h : UvReactor) (connId : Nat) (conn : Conn) (w : H2.World) (now bodyMs : Int) : UvReactor :=
  let told := if h.draining then w.session.goAway else w.session
  let session := told.sweep now bodyMs
  { h with
    conns := h.conns.set connId { conn with kind := .h2 ⟨session, w.wire⟩ }
    calls := h.calls ++ (session.expired.drop told.expired.length).map .retiring }

end UvReactor

/-! ### Steps -/

/-- A call of the runner. -/
inductive Request where
  | respond (id status : Nat) (headers : List Header) (body : Bytes)
  | respondFile (id status : Nat) (headers : List Header) (file : Option Bytes)
      (offset length : Int) (got : Nat)
  | startStream (id status : Nat) (headers : List Header)
  | sendStreamChunk (id : Nat) (chunk : Bytes) (last : Bool)
deriving DecidableEq, Repr

/-- What can happen next. -/
inductive Act where
  | accept (loopIdx : Nat)
  | speakH2 (connId : Nat)
  | upgrade (connId : Nat)
  | dispatch (connId : Nat) (isHead keepAlive : Bool)
  | retire (id : Nat)
  | session (connId : Nat) (ev : H2.Event)
  | sweep (connId : Nat) (now bodyMs : Int)
  | close (connId : Nat)
  | closed (connId : Nat)
  | async (loopIdx : Nat)
  | call (req : Request)
  | proceed (n : Nat)
  | drain
  | stop
deriving DecidableEq, Repr

namespace UvReactor

/-- The first critical section of a call. -/
def begin (h : UvReactor) : Request → UvReactor
  | .respond id status headers body => h.respond id status headers body
  | .respondFile id status headers file offset length got =>
      h.respondFile id status headers file offset length got
  | .startStream id status headers => h.startStream id status headers
  | .sendStreamChunk id chunk last => h.sendStreamChunk id chunk last

/-- A plaintext or TLS connection that has no request under way becomes something else. -/
def become (h : UvReactor) (connId : Nat) (kind : Kind) : Option UvReactor :=
  match h.conns.find connId with
  | some ⟨loopIdx, .http, false⟩ =>
      if h.ownIds connId = [] then
        some { h with conns := h.conns.set connId ⟨loopIdx, kind, false⟩ }
      else none
  | _ => none

def step (h : UvReactor) : Act → Option UvReactor
  | .accept loopIdx =>
      some { h with conns := h.conns.set h.nextId { loopIdx }, nextId := h.nextId + 1 }
  | .speakH2 connId => h.become connId (.h2 {})
  | .upgrade connId => h.become connId .ws
  | .dispatch connId isHead keepAlive =>
      match h.conns.find connId with
      | some ⟨loopIdx, .http, false⟩ =>
          some { h with
            nextId := h.nextId + 1
            reqLoc := h.reqLoc.set h.nextId ⟨loopIdx, connId, isHead, keepAlive, false⟩ }
      | _ => none
  | .retire id =>
      match h.reqLoc.find id with
      | some loc => if loc.isH2 then none else some (h.eraseReq id)
      | none => none
  | .session connId ev =>
      match h.conns.find connId with
      | some ⟨loopIdx, .h2 w, false⟩ =>
          if h.admits cfg ev then h.onSession cfg connId ⟨loopIdx, .h2 w, false⟩ w ev else none
      | _ => none
  | .sweep connId now bodyMs =>
      match h.conns.find connId with
      | some ⟨loopIdx, .h2 w, false⟩ =>
          some (h.onSweep connId ⟨loopIdx, .h2 w, false⟩ w now bodyMs)
      | _ => none
  | .close connId =>
      (h.conns.find connId).map fun conn =>
        { h with conns := h.conns.set connId { conn with closing := true } }
  | .closed connId =>
      match h.conns.find connId with
      | some conn => if conn.closing then some (h.onCloseConn connId conn) else none
      | none => none
  | .async loopIdx => some (h.onAsync loopIdx)
  | .call req => some (h.begin req)
  | .proceed n =>
      h.calls[n]?.map fun c => { h with calls := h.calls.eraseIdx n }.perform cfg c
  | .drain => some { h with draining := true }
  | .stop => some { h with running := false }

end UvReactor

/-- The states the reactor comes to. -/
abbrev Reachable (h : UvReactor) : Prop := Reaches (stepOf (UvReactor.step cfg)) anyStep {} h

end NitroServer.InFlight
