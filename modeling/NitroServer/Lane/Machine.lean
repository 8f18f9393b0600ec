/-
The lane of a connection: what it owes and what it has put on the wire.

A `Lane` is one connection as its answers see it. It keeps the gate (`busy`,
`closing`), the flags of the finishing writes that have not landed, a file being
sent, the connection's own requests and inbox entries, and the `marks` of everything
it has done so far, in order. Buffers, timers, parser state and other connections
are gone.

`Lane.Step` is a transition system over it: a move names one thing that can happen
to the answers of the connection, with the guard under which it can. The reactor
refines this machine (`NitroServer.Lane.Refine`): what is proved of every run of
lanes holds of every run of the reactor.
-/

import NitroServer.Lib.Run
import NitroServer.Engine.Conn

namespace NitroServer.Engine

open NitroServer.Lib

/-! ### Marks -/

/-- What the outside sees of a lane, in order: a request handed to a handler, an
upgrade, a piece written, a finishing write (with its keep-alive flag, after its
pieces), an answer entry put into the inbox. -/
inductive Mark where
  | dispatch (id : Nat)
  | upgrade
  | piece (p : Piece)
  | finish (keepAlive : Bool)
  | queued (e : Pending)
deriving DecidableEq, Repr

/-- The marks of one event of the reactor, for the connection `id`. -/
def Ev.marks (id : Nat) : Ev → List Mark
  | .dispatch req => [.dispatch req]
  | .upgrade => [.upgrade]
  | .write payload keepAlive finish _ =>
      payload.map .piece ++ if finish then [.finish keepAlive] else []
  | .push e => if e.connId = id then [.queued e] else []
  | _ => []

/-- The piece opens with a status line. -/
def Piece.opens (p : Piece) : Bool := (ascii "HTTP/1.1 ").isPrefixOf p.bytes

/-! ### Lanes -/

/-- One connection as its answers see it. -/
structure Lane where
  id : Nat
  busy : Bool
  closing : Bool
  gone : Bool
  ws : Bool
  /-- Keep-alive flags of the finishing writes not landed yet, oldest first. -/
  finishing : List Bool
  file : Option FileSend
  inFlight : Option Nat
  /-- The request whose streamed upload owns the buffer. -/
  upload : Option Nat
  reqs : List (Nat × ReqLoc)
  queue : List Pending
  nextId : Nat
  marks : List Mark
deriving DecidableEq, Repr

/-- Write pieces; `fin` carries the keep-alive flag of a finishing write. -/
def Lane.write (l : Lane) (ps : List Piece) (fin : Option Bool) : Lane :=
  { l with
    busy := true
    finishing := l.finishing ++ fin.toList
    marks := l.marks ++ (ps.map .piece ++ fin.toList.map .finish) }

def Lane.find (l : Lane) (id : Nat) : Option ReqLoc :=
  (l.reqs.find? fun e => e.1 == id).map Prod.snd

def Lane.erase (l : Lane) (id : Nat) : Lane :=
  { l with reqs := l.reqs.filter fun e => e.1 != id }

/-- An entry that ends the request's part in the inbox: the whole answer, the last
chunk, or a file. -/
def Pending.isLast (e : Pending) : Bool := e.finish || e.file.isSome

/-- The shapes an answer call may put into the inbox for request `id`. -/
def Pending.shaped (e : Pending) (id : Nat) (loc : ReqLoc) : Bool :=
  e.piece.origin == .request id && e.connId == loc.connId && e.keepAlive == loc.keepAlive &&
    match e.piece.part, e.file with
    | .whole, none => e.finish && e.piece.opens
    | .head, none => !e.finish && e.piece.opens
    | .head, some f =>
        !e.finish && e.piece.opens && f.requestId == id && f.keepAlive == loc.keepAlive
    | .chunk, none => !e.finish
    | .last, none => e.finish
    | _, _ => false

/-! ### Moves -/

inductive Move where
  | interim (p : Piece)
  | answer (p : Piece) (keepAlive : Bool)
  | dispatch (isHead keepAlive : Bool)
  | refuseUpload (p : Piece)
  | endUpload
  | upgrade (p : Piece)
  | close
  | leave
  | guard (p : Piece)
  | abort (p : Piece)
  | timeOut (p : Piece)
  | silence
  | flip
  | push (id : Nat) (e : Pending)
  | drain
  | landed
  | lost
  | fileChunk (p : Piece)
  | fileLost
  | sessionWrite (p : Piece)
  | sessionPush (e : Pending)
  | skipId
deriving DecidableEq, Repr

/-- The engine answers the request at the front of the buffer only while the gate is
open. -/
def Lane.open (l : Lane) : Prop := l.busy = false ∧ l.closing = false

/-- It parses a request only while, besides, no upload owns the buffer. -/
def Lane.ready (l : Lane) : Prop := l.open ∧ l.upload = none

/-- The lane with a request registered under the next id. -/
def Lane.register (l : Lane) (loc : List (Nat × ReqLoc)) : Lane :=
  { l with
    busy := true
    inFlight := some l.nextId
    reqs := l.reqs ++ loc
    nextId := l.nextId + 1
    marks := l.marks ++ [.dispatch l.nextId] }

/-- One move. -/
inductive Lane.Step : Lane → Move → Lane → Prop where
  /-- 100-continue. -/
  | interim {l : Lane} {p : Piece} (gate : l.ready) (part : p.part = .interim) :
      Step l (.interim p) { l with marks := l.marks ++ [.piece p] }
  /-- The engine answers the request at the front of the buffer. -/
  | answer {l : Lane} {p : Piece} {ka : Bool} (gate : l.open) (part : p.part = .whole)
      (origin : p.origin = .engine ∨ p.origin = .fixed) (opens : p.opens) :
      Step l (.answer p ka) (l.write [p] (some ka))
  | dispatch {l : Lane} {isHead ka : Bool} (gate : l.ready) :
      Step l (.dispatch isHead ka) (l.register [(l.nextId, ⟨l.id, isHead, ka⟩)])
  /-- A dispatched request whose body is streamed. -/
  | dispatchStream {l : Lane} {isHead ka : Bool} (gate : l.ready) :
      Step l (.dispatch isHead ka)
        { l.register [(l.nextId, ⟨l.id, isHead, ka⟩)] with upload := some l.nextId }
  /-- A streamed request over the cap with its first bytes: dispatched and refused. -/
  | refuseUpload {l : Lane} {p : Piece} (gate : l.ready) (part : p.part = .whole)
      (origin : p.origin = .request l.nextId) (opens : p.opens) :
      Step l (.refuseUpload p) ({ l.register [] with upload := none }.write [p] (some false))
  | endUpload {l : Lane} : Step l .endUpload { l with upload := none }
  | upgrade {l : Lane} {p : Piece} (gate : l.ready) (part : p.part = .whole)
      (origin : p.origin = .session) (opens : p.opens) :
      Step l (.upgrade p)
        (Lane.write { l with ws := true, marks := l.marks ++ [.upgrade] } [p] none)
  | close {l : Lane} : Step l .close { l with closing := true }
  /-- The close callback of an HTTP connection, and of a session. -/
  | leave {l : Lane} (http : l.ws = false) (shut : l.closing = true) :
      Step l .leave { l with gone := true, file := none, reqs := [] }
  | leaveSession {l : Lane} (ws : l.ws = true) (shut : l.closing = true) :
      Step l .leave { l with gone := true, file := none }
  /-- The busy-buffer guard: 400. -/
  | guard {l : Lane} {p : Piece} (busy : l.busy = true) (http : l.ws = false)
      (part : p.part = .whole) (origin : p.origin = .guard) (opens : p.opens) :
      Step l (.guard p) (l.write [p] (some false))
  /-- An upload over its cap: 413. -/
  | abort {l : Lane} {p : Piece} {id : Nat} (upload : l.upload = some id)
      (part : p.part = .whole) (origin : p.origin = .request id) (opens : p.opens) :
      Step l (.abort p) (({ l with upload := none }.erase id).write [p] (some false))
  /-- A deadline or an upload that stalled: 408. -/
  | timeOut {l : Lane} {p : Piece} {id : Nat} (inFlight : l.inFlight = some id)
      (found : (l.find id).isSome) (part : p.part = .whole) (origin : p.origin = .request id)
      (opens : p.opens) :
      Step l (.timeOut p)
        (({ l with inFlight := none, upload := none }.erase id).write [p] (some false))
  /-- A stream the handler stopped feeding is closed. -/
  | silence {l : Lane} {id : Nat} (inFlight : l.inFlight = some id) :
      Step l .silence { l.erase id with inFlight := none, closing := true }
  /-- The answer of a request is told to close. -/
  | flip {l : Lane} {id : Nat} :
      Step l .flip { l with reqs := l.reqs.map fun e =>
        if e.1 = id then (e.1, { e.2 with keepAlive := false }) else e }
  | push {l : Lane} {id : Nat} {loc : ReqLoc} {e : Pending} (found : l.find id = some loc)
      (shaped : e.shaped id loc) (more : e.isLast = false) :
      Step l (.push id e) { l with queue := l.queue ++ [e], marks := l.marks ++ [.queued e] }
  | pushLast {l : Lane} {id : Nat} {loc : ReqLoc} {e : Pending} (found : l.find id = some loc)
      (shaped : e.shaped id loc) (last : e.isLast = true) :
      Step l (.push id e)
        { l.erase id with queue := l.queue ++ [e], marks := l.marks ++ [.queued e] }
  /-- An inbox entry reaches the loop: dropped with its connection, or written. -/
  | drop {l : Lane} {e : Pending} {rest : List Pending} (queue : l.queue = e :: rest)
      (shut : l.gone = true ∨ l.closing = true) : Step l .drain { l with queue := rest }
  | drain {l : Lane} {e : Pending} {rest : List Pending} (queue : l.queue = e :: rest)
      (live : l.gone = false) (gate : l.closing = false) (file : e.file = none) :
      Step l .drain
        ({ l with queue := rest }.write [e.piece] (if e.finish then some e.keepAlive else none))
  | drainFile {l : Lane} {e : Pending} {f : FileSend} {rest : List Pending}
      (queue : l.queue = e :: rest) (live : l.gone = false) (gate : l.closing = false)
      (file : e.file = some f) :
      Step l .drain ({ l with queue := rest, file := some f }.write [e.piece] none)
  /-- The oldest finishing write landed: the gate opens, or the connection closes. -/
  | landed {l : Lane} {rest : List Bool} (finishing : l.finishing = true :: rest)
      (gate : l.closing = false) :
      Step l .landed { l with finishing := rest, inFlight := none, busy := false }
  | landedLast {l : Lane} {ka : Bool} {rest : List Bool} (finishing : l.finishing = ka :: rest)
      (shut : ka = false ∨ l.closing = true) :
      Step l .landed { l with finishing := rest, inFlight := none, closing := true }
  /-- The oldest finishing write failed. -/
  | lost {l : Lane} {ka : Bool} {rest : List Bool} (finishing : l.finishing = ka :: rest) :
      Step l .lost { l with finishing := rest, closing := true }
  | fileChunk {l : Lane} {p : Piece} {f : FileSend} {offset remaining : Nat}
      (file : l.file = some f) (gate : l.closing = false)
      (origin : p.origin = .request f.requestId) (part : p.part = .chunk) :
      Step l (.fileChunk p)
        (Lane.write { l with file := some ⟨f.requestId, offset, remaining, f.keepAlive⟩ } [p] none)
  | fileEnd {l : Lane} {p : Piece} {f : FileSend} (file : l.file = some f)
      (gate : l.closing = false) (origin : p.origin = .request f.requestId)
      (part : p.part = .last) :
      Step l (.fileChunk p) ({ l with file := none }.write [p] (some f.keepAlive))
  | fileLost {l : Lane} : Step l .fileLost { l with file := none, closing := true }
  | sessionWrite {l : Lane} {p : Piece} (ws : l.ws = true) (part : p.part = .raw) :
      Step l (.sessionWrite p) (l.write [p] none)
  | sessionClose {l : Lane} {p : Piece} (ws : l.ws = true) (part : p.part = .raw) :
      Step l (.sessionWrite p) (l.write [p] (some false))
  | sessionPush {l : Lane} {e : Pending} (ws : l.ws = true) (part : e.piece.part = .raw)
      (file : e.file = none) (closes : e.finish = true → e.keepAlive = false) :
      Step l (.sessionPush e)
        { l with queue := l.queue ++ [e], marks := l.marks ++ [.queued e] }
  | skipId {l : Lane} : Step l .skipId { l with nextId := l.nextId + 1 }

/-- The moves that are only right under a cause of their own. -/
def Move.risky : Move → Bool
  | .guard _ | .abort _ | .timeOut _ | .push _ _ => true
  | _ => false

/-- The moves that start an answer which may keep the connection. -/
def Move.keeps : Move → Bool
  | .answer _ keepAlive | .dispatch _ keepAlive => keepAlive
  | _ => false

/-- The moves that need no look at the request they belong to. -/
def Move.plain : Move → Bool
  | .answer _ _ => false
  | m => !m.risky && !m.keeps

theorem Lane.Step.id {l l' : Lane} {m : Move} (h : l.Step m l') : l'.id = l.id := by
  cases h <;> rfl

theorem Lane.Step.ws {l l' : Lane} {m : Move} (h : l.Step m l') (hw : l.ws = true) :
    l'.ws = true := by
  cases h <;> first | exact hw | rfl

/-- The request ids a lane holds on to. -/
def Lane.ids (l : Lane) : List Nat :=
  l.reqs.map Prod.fst ++ l.inFlight.toList ++ l.upload.toList

theorem Lane.mem_ids {l : Lane} {i : Nat} :
    i ∈ l.ids ↔ i ∈ l.reqs.map Prod.fst ∨ l.inFlight = some i ∨ l.upload = some i := by
  simp [Lane.ids, Option.mem_toList]

/-- Filtering a request table adds no key. -/
theorem mem_keys_of_filter {reqs : List (Nat × ReqLoc)} {q : Nat × ReqLoc → Bool} {i : Nat}
    (h : i ∈ (reqs.filter q).map Prod.fst) : i ∈ reqs.map Prod.fst :=
  (List.filter_sublist.map Prod.fst).mem h

/-- Telling an answer to close keeps the keys. -/
theorem map_fst_flip (reqs : List (Nat × ReqLoc)) (id : Nat) :
    (reqs.map fun e => if e.1 = id then (e.1, { e.2 with keepAlive := false }) else e).map
      Prod.fst = reqs.map Prod.fst := by
  rw [List.map_map]
  refine List.map_congr_left fun e _ => ?_
  simp only [Function.comp]
  split <;> rfl

/-- A move lets go of ids, and the only new one is the next. -/
theorem Lane.Step.ids {l l' : Lane} {m : Move} (h : l.Step m l') :
    l.nextId ≤ l'.nextId ∧ ∀ i ∈ l'.ids, i ∈ l.ids ∨ i = l.nextId ∧ i < l'.nextId := by
  cases h with
  | dispatch | dispatchStream | refuseUpload =>
      refine ⟨Nat.le_succ _, fun i hi => ?_⟩
      simp only [Lane.mem_ids, Lane.register, Lane.write, List.map_append, List.mem_append] at hi ⊢
      grind
  | abort | timeOut | silence | pushLast =>
      refine ⟨le_refl _, fun i hi => .inl ?_⟩
      simp only [Lane.mem_ids, Lane.erase, Lane.write] at hi ⊢
      exact hi.imp mem_keys_of_filter (fun hi => by grind)
  | flip =>
      refine ⟨le_refl _, fun i hi => .inl ?_⟩
      simpa only [Lane.mem_ids, map_fst_flip] using hi
  | skipId => exact ⟨Nat.le_succ _, fun i hi => .inl hi⟩
  | _ =>
      refine ⟨le_refl _, fun i hi => .inl ?_⟩
      simp only [Lane.mem_ids, Lane.write] at hi ⊢
      grind

/-! ### The lane of a reactor -/

/-- The entries of this connection, and those of the others. -/
def Reactor.ownReqs (r : Reactor) : List (Nat × ReqLoc) :=
  r.reqLoc.filter fun e => e.2.connId == r.conn.id

def Reactor.otherReqs (r : Reactor) : List (Nat × ReqLoc) :=
  r.reqLoc.filter fun e => e.2.connId != r.conn.id

def Reactor.ownQueue (r : Reactor) : List Pending :=
  r.queue.filter fun e => e.connId == r.conn.id

/-- The keep-alive flags of the finishing ones among the outstanding writes. -/
def finishingOf (ws : List WriteCtx) : List Bool :=
  (ws.filter WriteCtx.finish).map WriteCtx.keepAlive

/-- The request whose upload is under way. -/
def uploadOf (streaming : Bool) (id : Nat) : Option Nat := if streaming then some id else none

/-- The lane of the reactor's connection. -/
def Reactor.lane (r : Reactor) : Lane where
  id := r.conn.id
  busy := r.conn.busy
  closing := r.conn.closing
  gone := r.gone
  ws := r.conn.ws
  finishing := finishingOf r.conn.writes
  file := r.conn.file
  inFlight := r.conn.reqIdInFlight
  upload := uploadOf r.conn.streamingBody r.conn.streamReqId
  reqs := r.ownReqs
  queue := r.ownQueue
  nextId := r.nextId
  marks := r.trace.flatMap (Ev.marks r.conn.id)

end NitroServer.Engine
