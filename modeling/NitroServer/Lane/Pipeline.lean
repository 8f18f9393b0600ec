/-
Pipelined requests: what is dispatched does not depend on how the bytes arrive.

A list of requests, each accepted by the parser and bound for a handler that reads
its body whole (`Pipelined`), is sent in any segmentation, while answers are queued,
written and completed in any order. `processConn` looks at the buffer from its start
each time; what it emits is one dispatch for each request, in order, with the
request's own head and body.

* `processConn_waits` / `processConn_dispatches` — the parser on a buffer that is a
  beginning of the stream, before and after the first request is complete.
* `Stage` — the part of the reactor this depends on; `Piped` — where it stands in the
  stream.
* `pipelined_dispatch` — the result, over every run.
-/

import NitroServer.Lane.Refine

namespace NitroServer.Engine

open NitroServer.Lib

/-! ### Requests on the wire -/

/-- A request as a client sends it: the head without its blank line, and the body. The
parser accepts it, its route has a handler that takes the body whole, and it keeps the
connection. -/
structure Pipelined (env : Env) where
  head : Bytes
  body : Bytes
  parsed : ParsedHead
  route : RouteEntry
  params : List RouteParam
  parses : parseRequestHead (head ++ crlf2) head.length = parsed
  /-- The first blank line ends the head, which is at most 64 KiB long with it. -/
  cut : findSub crlf2 (head ++ crlf2) = some head.length
  short : head.length + 4 ≤ 64 * 1024
  ok : parsed.ok = true
  framing : uvFraming parsed = .ok false
  length : declaredLength parsed = body.length
  routed : (Request.of env parsed false).route = some (route, params)
  fits : body.length ≤ (Request.of env parsed false).maxBody env
  handler : route.isWebSocket = false ∧ route.streamBody = false ∧ route.staticResponse = none
  plain : uvIsWebSocketUpgrade parsed = false
  keeps : uvClientWantsKeepAlive parsed = true

/-- What an emitter is told of a request. -/
inductive Message where
  | head (m : HeadMsg)
  | data (id : Nat) (payload : Bytes)
  | fin (id : Nat)
deriving DecidableEq, Repr

def Ev.message : Ev → Option Message
  | .emitHead _ m => some (.head m)
  | .emitBodyData _ id payload => some (.data id payload)
  | .emitBodyEnd _ id => some (.fin id)
  | _ => none

namespace Pipelined

variable {env : Env}

def request (q : Pipelined env) : Request := Request.of env q.parsed false

def wire (q : Pipelined env) : Bytes := q.head ++ crlf2 ++ q.body

/-- One dispatch: the head, and a body as one chunk with its end marker. -/
def messages (q : Pipelined env) (id : Nat) : List Message :=
  .head (Reactor.headMsg q.request id q.body.length (decide (q.body ≠ []))
      (!decide (q.body ≠ [])) q.route q.params) ::
    if q.body = [] then [] else [.data id q.body, .fin id]

/-- The serialization of a list of requests. -/
def stream (qs : List (Pipelined env)) : Bytes := qs.flatMap wire

theorem request_head (q : Pipelined env) : q.request.head = q.parsed := rfl

theorem request_chunked (q : Pipelined env) : q.request.chunked = false := rfl

/-- The body of a pipelined request is never streamed. -/
theorem not_streamed (q : Pipelined env) :
    (if q.request.hasBody then q.request.streamRoute else none) = none := by
  have none : q.request.streamRoute = none := by
    have routed : q.request.route = some (q.route, q.params) := q.routed
    simp [Request.streamRoute, routed, q.handler.2.1]
  rw [none, ite_self]

/-- The head is found as soon as it is there, and parses as it does alone. -/
theorem cut_append (q : Pipelined env) (more : Bytes) :
    findSub crlf2 (q.head ++ crlf2 ++ more) = some q.head.length :=
  findSub_append more q.cut

theorem parses_append (q : Pipelined env) (more : Bytes) :
    parseRequestHead (q.head ++ crlf2 ++ more) q.head.length = q.parsed := by
  rw [parseRequestHead_append more (by simp), q.parses]

end Pipelined

/-! ### The HTTP/2 probe -/

/-- Where the blank line of the preface is. -/
theorem cut_preface : ∀ n ≤ 24, findSub crlf2 (Reactor.h2Preface.take n) =
    if n < 18 then none else some 14 := by
  decide +kernel

/-- The preface is not a request. -/
theorem preface_refused :
    (parseRequestHead (Reactor.h2Preface.take 14 ++ crlf2) 14).ok = false := by
  decide +kernel

variable {env : Env}

/-- A buffer that starts with a whole head does not look like the preface, nor does one
that is as long as it. -/
theorem looksH2_short {r : Reactor} {q : Pipelined env} {more : Bytes}
    (buf : r.conn.buf <+: q.wire ++ more) (looks : r.looksH2 env = true) :
    r.conn.buf.length < q.head.length + 4 ∧ r.conn.buf.length < Reactor.h2Preface.length := by
  have len : Reactor.h2Preface.length = 24 := by decide
  have agree : r.conn.buf.take 24 = Reactor.h2Preface.take r.conn.buf.length := by
    simp only [Reactor.looksH2, Bool.and_eq_true, beq_iff_eq, len] at looks
    exact looks.2
  -- the first blank line of what agrees with the preface
  have cut : findSub crlf2 (r.conn.buf.take 24) =
      if min r.conn.buf.length 24 < 18 then none else some 14 := by
    rw [agree, ← cut_preface (min r.conn.buf.length 24) (by omega)]
    congr 1
    rcases le_total r.conn.buf.length 24 with h | h
    · rw [Nat.min_eq_left h]
    · rw [Nat.min_eq_right h, List.take_of_length_le (by omega), List.take_of_length_le (by omega)]
  obtain ⟨tail, htail⟩ := buf
  have whole : findSub crlf2 (r.conn.buf ++ tail) = some q.head.length := by
    rw [htail, Pipelined.wire, List.append_assoc]
    exact q.cut_append _
  have long : ¬ 18 ≤ r.conn.buf.length := by
    intro h18
    rw [if_neg (by omega)] at cut
    have found : findSub crlf2 (r.conn.buf ++ tail) = some 14 := by
      have := findSub_append (r.conn.buf.drop 24 ++ tail) cut
      rwa [← List.append_assoc, List.take_append_drop] at this
    have eq14 : q.head.length = 14 := by simpa using whole.symm.trans found
    have head : q.head = Reactor.h2Preface.take 14 := by
      have : q.head = (r.conn.buf ++ tail).take 14 := by
        rw [htail, Pipelined.wire, List.append_assoc, List.append_assoc,
          List.take_append_of_le_length (by omega), List.take_of_length_le (by omega)]
      rw [this, List.take_append_of_le_length (by omega)]
      have := congrArg (List.take 14) agree
      rwa [List.take_take, List.take_take, Nat.min_eq_left (by omega),
        Nat.min_eq_left (by omega)] at this
    have ok := q.ok
    rw [← q.parses, eq14, head, preface_refused] at ok
    cases ok
  refine ⟨?_, by omega⟩
  by_contra h
  have found : findSub crlf2 r.conn.buf = some q.head.length := by
    have pre : q.head ++ crlf2 <+: r.conn.buf ++ tail := by
      rw [htail, Pipelined.wire, List.append_assoc]
      exact List.prefix_append _ _
    obtain ⟨more', heq⟩ := List.prefix_of_prefix_length_le pre (List.prefix_append _ _)
      (by simpa [crlf2] using h)
    rw [← heq]
    exact q.cut_append more'
  rw [List.take_of_length_le (by omega), if_pos (by omega), found] at cut
  cases cut

/-! ### What the parser depends on -/

/-- The part of a reactor that pipelining looks at. -/
structure Stage where
  id : Nat
  buf : Bytes
  busy : Bool
  closing : Bool
  streaming : Bool
  ws : Bool
  h2 : Bool
  ageExpired : Bool
  served : Nat
  file : Option FileSend
  finishing : List Bool
  reqLoc : List (Nat × ReqLoc)
  queue : List Pending
  nextId : Nat
  draining : Bool
  emitter : Option Nat
  messages : List Message

def Reactor.stage (r : Reactor) : Stage where
  id := r.conn.id
  buf := r.conn.buf
  busy := r.conn.busy
  closing := r.conn.closing
  streaming := r.conn.streamingBody
  ws := r.conn.ws
  h2 := r.conn.h2
  ageExpired := r.conn.ageExpired
  served := r.conn.served
  file := r.conn.file
  finishing := finishingOf r.conn.writes
  reqLoc := r.reqLoc
  queue := r.queue
  nextId := r.nextId
  draining := r.draining
  emitter := r.emitter
  messages := r.trace.filterMap Ev.message

namespace Reactor

theorem stage_issueWrite (r : Reactor) (ps : List Piece) (ka fin : Bool) :
    (r.issueWrite env ps ka fin).stage =
      { r.stage with finishing := r.stage.finishing ++ if fin then [ka] else [] } := by
  cases fin <;> simp [issueWrite, stage, finishingOf, Ev.message]

theorem stage_sendContinue (r : Reactor) (q : Request) :
    (r.sendContinue env q).stage = r.stage := by
  unfold sendContinue
  split
  · split
    · unfold writeRaw
      split
      · rfl
      · rw [stage_issueWrite]
        simp [stage, setConn]
    · rfl
  · rfl

/-- 100-continue leaves the shared tables alone. -/
theorem sendContinue_frame (r : Reactor) (q : Request) :
    (r.sendContinue env q).conn.buf = r.conn.buf ∧
      (r.sendContinue env q).reqLoc = r.reqLoc ∧
      (r.sendContinue env q).mayKeepAlive env = r.mayKeepAlive env := by
  have h : (r.sendContinue env q).stage = _ := stage_sendContinue r q
  refine ⟨congrArg Stage.buf h, congrArg Stage.reqLoc h, ?_⟩
  funext head
  have draining := congrArg Stage.draining h
  have age := congrArg Stage.ageExpired h
  have served := congrArg Stage.served h
  simp only [stage] at draining age served
  simp only [mayKeepAlive, draining, age, served]

/-- The head is not complete. -/
theorem processHead_partial {r : Reactor} {q : Pipelined env} {more : Bytes}
    (buf : r.conn.buf <+: q.wire ++ more) (short : r.conn.buf.length < q.head.length + 4) :
    (r.processHead env).1.stage = r.stage := by
  have none : findSub crlf2 r.conn.buf = none := by
    obtain ⟨tail, htail⟩ := buf
    refine findSub_eq_none_of_short (t := tail) ?_ (by simpa [crlf2] using short)
    rw [htail, Pipelined.wire, List.append_assoc]
    exact q.cut_append _
  have limit := q.short
  simp only [processHead, none, awaitHead]
  rw [if_neg (by omega)]
  split <;> rfl

/-- A complete head is parsed and framed. -/
theorem processHead_found {r : Reactor} {q : Pipelined env} (rest : Bytes)
    (buf : r.conn.buf = q.head ++ crlf2 ++ rest) :
    r.processHead env = (r.setConn { r.conn with headPending := false }).processRequest env
      q.request (q.head.length + 4) := by
  unfold processHead
  have cut : findSub crlf2 r.conn.buf = some q.head.length := by rw [buf, q.cut_append]
  have parses : parseRequestHead r.conn.buf q.head.length = q.parsed := by
    rw [buf, q.parses_append]
  rw [cut]
  have same : (r.setConn { r.conn with headPending := false }).conn.buf = r.conn.buf := rfl
  dsimp only
  rw [same, parses, if_neg (by simp [q.ok]), q.framing]
  rfl

/-- It passes the cap, and its body is taken whole. -/
theorem processRequest_takes (r : Reactor) (q : Pipelined env) (start : Nat) :
    r.processRequest env q.request start =
      match q.request.takeBody env (r.sendContinue env q.request).conn.buf start with
      | .wait => ((r.sendContinue env q.request).setConn
          { (r.sendContinue env q.request).conn with bodyPending := true }, false)
      | .refuse status => ((r.sendContinue env q.request).refuse env .engine status, false)
      | .whole body stop =>
          ((r.sendContinue env q.request).setConn { (r.sendContinue env q.request).conn with
            buf := (r.sendContinue env q.request).conn.buf.drop stop, bodyPending := false,
            lastActive := (r.sendContinue env q.request).clock }).answerRequest env q.request
              ((r.sendContinue env q.request).mayKeepAlive env q.request.head) body := by
  have cap : ¬ (¬ q.request.chunked = true ∧
      q.request.maxBody env < declaredLength q.request.head) := by
    rintro ⟨-, beyond⟩
    have clen : declaredLength q.request.head = q.body.length := q.length
    rw [clen] at beyond
    exact absurd beyond (not_lt.mpr q.fits)
  unfold processRequest
  rw [if_neg cap, q.not_streamed] <;> rfl

/-- The head is complete, its body is not. -/
theorem processHead_waits {r : Reactor} {q : Pipelined env} {part : Bytes}
    (buf : r.conn.buf = q.head ++ crlf2 ++ part) (short : part.length < q.body.length) :
    (r.processHead env).1.stage = r.stage := by
  set r₁ := r.setConn { r.conn with headPending := false } with hr₁
  have wait : q.request.takeBody env (r₁.sendContinue env q.request).conn.buf
      (q.head.length + 4) = .wait := by
    have clen : declaredLength q.request.head = q.body.length := q.length
    have same : (r₁.sendContinue env q.request).conn.buf = r.conn.buf :=
      (sendContinue_frame r₁ q.request).1
    rw [same, buf, Request.takeBody, q.request_chunked]
    simp only [Bool.false_eq_true, if_false, clen]
    rw [if_pos (by simp [crlf2]; omega)]
  rw [processHead_found part buf, ← hr₁, processRequest_takes, wait]
  exact stage_sendContinue r₁ q.request

/-- The request is dispatched. -/
theorem stage_dispatchWhole {r : Reactor} {q : Pipelined env} {ka : Bool}
    (attached : r.emitter.isSome = true) :
    (r.dispatchWhole env q.request q.route q.params ka q.body).stage =
      { r.stage with
        busy := true
        nextId := r.nextId + 1
        reqLoc := r.reqLoc ++ [(r.nextId, ⟨r.conn.id, decide (q.parsed.method = .head), ka⟩)]
        messages := r.stage.messages ++ q.messages r.nextId } := by
  obtain ⟨sink, hsink⟩ := Option.isSome_iff_exists.mp attached
  by_cases body : q.body = []
  · simp [dispatchWhole, emitTo, hsink, dispatch, log, stage, Pipelined.messages, body,
      Ev.message, q.request_head]
    exact ⟨rfl, rfl⟩
  · simp [dispatchWhole, emitTo, hsink, dispatch, log, stage, Pipelined.messages, body,
      Ev.message, q.request_head]
    exact ⟨rfl, rfl⟩

/-- The request is complete. -/
theorem processHead_dispatches {r : Reactor} {q : Pipelined env} {rest : Bytes}
    (buf : r.conn.buf = q.wire ++ rest) (attached : r.emitter.isSome = true)
    (budget : r.overInFlightBudget env = false) :
    (r.processHead env).1.stage =
      { r.stage with
        buf := rest
        busy := true
        nextId := r.nextId + 1
        reqLoc := r.reqLoc ++
          [(r.nextId, ⟨r.conn.id, decide (q.parsed.method = .head), r.mayKeepAlive env q.parsed⟩)]
        messages := r.stage.messages ++ q.messages r.nextId } := by
  set r₁ := r.setConn { r.conn with headPending := false } with hr₁
  set r₂ := r₁.sendContinue env q.request with hr₂
  obtain ⟨same, reqLoc, keeps⟩ := sendContinue_frame r₁ q.request
  have stage₂ : r₂.stage = r.stage := stage_sendContinue r₁ q.request
  have whole : q.request.takeBody env r₂.conn.buf (q.head.length + 4) =
      .whole q.body (q.head.length + 4 + q.body.length) := by
    have clen : declaredLength q.request.head = q.body.length := q.length
    have hbuf : r₂.conn.buf = q.head ++ crlf2 ++ (q.body ++ rest) := by
      rw [same, show r₁.conn.buf = r.conn.buf from rfl, buf, Pipelined.wire, List.append_assoc]
    have start : (q.head ++ crlf2).length = q.head.length + 4 := by simp [crlf2]
    rw [hbuf, Request.takeBody, q.request_chunked]
    simp only [Bool.false_eq_true, if_false, clen]
    rw [if_neg (by simp [crlf2]; omega), ← start, List.drop_left, List.take_left]
  rw [processHead_found (q.body ++ rest) (by rw [buf, Pipelined.wire, List.append_assoc]),
    ← hr₁, processRequest_takes, ← hr₂, whole]
  dsimp only
  have left : r₂.conn.buf.drop (q.head.length + 4 + q.body.length) = rest := by
    have len : q.wire.length = q.head.length + 4 + q.body.length := by
      simp [Pipelined.wire, crlf2]
      omega
    rw [same, show r₁.conn.buf = r.conn.buf from rfl, buf, ← len, List.drop_left]
  rw [left]
  set r₃ := r₂.setConn { r₂.conn with buf := rest, bodyPending := false, lastActive := r₂.clock }
  have answers : r₃.answerRequest env q.request (r₂.mayKeepAlive env q.request.head) q.body =
      (r₃.dispatchWhole env q.request q.route q.params (r₂.mayKeepAlive env q.request.head) q.body,
        false) := by
    have routed : q.request.route = some (q.route, q.params) := q.routed
    have upgrade : uvIsWebSocketUpgrade q.request.head = false := q.plain
    obtain ⟨http, -, dynamic⟩ := q.handler
    have budget₃ : r₃.overInFlightBudget env = false := by
      have : r₃.reqLoc = r.reqLoc := reqLoc
      simpa [overInFlightBudget, this] using budget
    simp only [answerRequest, routed, http, upgrade, dynamic, budget₃, Bool.false_eq_true, if_false]
  have attached₃ : r₃.emitter.isSome = true := by
    have : r₂.emitter = r.emitter := congrArg Stage.emitter stage₂
    exact this ▸ attached
  rw [answers, stage_dispatchWhole attached₃, show r₂.mayKeepAlive env = r₁.mayKeepAlive env from
    keeps]
  have stage₃ : r₃.stage = { r.stage with buf := rest } := by
    rw [← stage₂]
    rfl
  have next : r₃.nextId = r.nextId := congrArg Stage.nextId stage₃
  have locs : r₃.reqLoc = r.reqLoc := congrArg Stage.reqLoc stage₃
  have id : r₃.conn.id = r.conn.id := congrArg Stage.id stage₃
  rw [stage₃, next, locs, id]
  rfl

end Reactor

/-! ### The invariant -/

/-- Nothing closes the connection: every answer on its way keeps it. -/
structure Stage.Keeps (s : Stage) : Prop where
  closing : s.closing = false
  streaming : s.streaming = false
  ws : s.ws = false
  h2 : s.h2 = false
  young : s.ageExpired = false
  draining : s.draining = false
  attached : s.emitter.isSome = true
  reqs : ∀ e ∈ s.reqLoc, e.2.connId = s.id → e.2.keepAlive = true
  queue : ∀ e ∈ s.queue, e.connId = s.id →
    e.keepAlive = true ∧ ∀ f, e.file = some f → f.keepAlive = true ∧ 0 < f.remaining
  file : ∀ f, s.file = some f → f.keepAlive = true ∧ 0 < f.remaining
  finishing : ∀ ka ∈ s.finishing, ka = true

/-- Where a connection stands in the stream: these ids are the dispatched requests, and
what was sent is theirs and the buffer. -/
structure Piped (qs : List (Pipelined env)) (sent : Bytes) (ids : List Nat) (s : Stage) :
    Prop where
  count : ids.length ≤ qs.length
  stream : sent = Pipelined.stream (qs.take ids.length) ++ s.buf
  old : ∀ i ∈ ids, i < s.nextId
  sorted : ids.Pairwise (· < ·)
  messages : s.messages = (ids.zip qs).flatMap fun (id, q) => q.messages id
  served : s.served + s.busy.toNat ≤ ids.length

/-- The next request has not all arrived. -/
def CaughtUp (qs : List (Pipelined env)) (ids : List Nat) (s : Stage) : Prop :=
  ∀ q, qs[ids.length]? = some q → s.buf.length < q.wire.length

/-- What the place in the stream depends on. -/
def Stage.course (s : Stage) : Bytes × Bool × Nat × Nat × List Message :=
  (s.buf, s.busy, s.served, s.nextId, s.messages)

/-- What the server is configured with keeps a connection for all of the requests. -/
structure Patient (env : Env) (qs : List (Pipelined env)) : Prop where
  keepAlive : 0 < env.cfg.keepAliveTimeoutMs
  requests : env.cfg.maxRequestsPerConn ≤ 0 ∨ (qs.length : Int) < env.cfg.maxRequestsPerConn

theorem Piped.buf_nil {qs : List (Pipelined env)} {sent : Bytes} {ids : List Nat} {s : Stage}
    (h : Piped qs sent ids s) (within : sent <+: Pipelined.stream qs)
    (none : qs[ids.length]? = none) : s.buf = [] := by
  have all : qs.take ids.length = qs := List.take_of_length_le (List.getElem?_eq_none_iff.mp none)
  rw [h.stream, all] at within
  have := within.length_le
  simp only [List.length_append] at this
  exact List.length_eq_zero_iff.mp (by omega)

theorem Piped.buf_prefix {qs : List (Pipelined env)} {sent : Bytes} {ids : List Nat} {s : Stage}
    {q : Pipelined env} (h : Piped qs sent ids s) (within : sent <+: Pipelined.stream qs)
    (next : qs[ids.length]? = some q) :
    s.buf <+: q.wire ++ Pipelined.stream (qs.drop (ids.length + 1)) := by
  obtain ⟨hlt, hq⟩ := List.getElem?_eq_some_iff.mp next
  have split : Pipelined.stream qs = Pipelined.stream (qs.take ids.length) ++
      (q.wire ++ Pipelined.stream (qs.drop (ids.length + 1))) := by
    conv_lhs => rw [← List.take_append_drop ids.length qs]
    rw [← hq, Pipelined.stream, List.flatMap_append, List.drop_eq_getElem_cons hlt]
    rfl
  rw [h.stream, split] at within
  exact (List.prefix_append_right_inj _).mp within

/-- One more request is dispatched. -/
theorem Piped.dispatched {qs : List (Pipelined env)} {sent : Bytes} {ids : List Nat}
    {s s' : Stage} {q : Pipelined env} {rest : Bytes} (h : Piped qs sent ids s)
    (next : qs[ids.length]? = some q) (idle : s.busy = false) (buf : s.buf = q.wire ++ rest)
    (buf' : s'.buf = rest) (busy : s'.busy = true) (served : s'.served = s.served)
    (nextId : s'.nextId = s.nextId + 1)
    (messages : s'.messages = s.messages ++ q.messages s.nextId) :
    Piped qs sent (ids ++ [s.nextId]) s' := by
  obtain ⟨hlt, hq⟩ := List.getElem?_eq_some_iff.mp next
  refine ⟨by rw [List.length_append]; exact hlt, ?_, ?_, ?_, ?_, ?_⟩
  · rw [h.stream, buf, buf', List.length_append, List.length_singleton, Pipelined.stream,
      Pipelined.stream, List.take_succ_eq_append_getElem hlt, List.flatMap_append, hq]
    simp
  · intro i hi
    rcases List.mem_append.mp hi with hi | hi
    · exact (h.old i hi).trans (by omega)
    · rw [List.mem_singleton.mp hi, nextId]
      omega
  · rw [List.pairwise_append]
    exact ⟨h.sorted, List.pairwise_singleton _ _, fun a ha b hb =>
      List.mem_singleton.mp hb ▸ h.old a ha⟩
  · have cut : (ids ++ [s.nextId]).zip qs = ids.zip qs ++ [(s.nextId, q)] := by
      conv_lhs => rw [← List.take_append_drop ids.length qs]
      rw [List.zip_append (by simp; omega), List.drop_eq_getElem_cons hlt, hq]
      have left : ids.zip (qs.take ids.length) = ids.zip qs := by
        conv_rhs => rw [← List.take_append_drop ids.length qs]
        rw [← List.append_nil ids, List.zip_append (by simp; omega)]
        simp
      simp [left]
    rw [messages, h.messages, cut, List.flatMap_append]
    simp
  · have := h.served
    simp only [idle, busy, served, List.length_append, List.length_singleton] at this ⊢
    simpa using this

/-- A write that is not the last of its answer leaves more unsent than the stream cap. -/
def Ev.overStream (env : Env) : Ev → Bool
  | .write _ _ finish level =>
      !finish && decide (0 < env.cfg.streamMaxBufferBytes) &&
        decide (env.cfg.streamMaxBufferBytes < level)
  | _ => false

/-- The invariant of a pipelined connection. -/
def Pipelining (qs : List (Pipelined env)) (sent : Bytes) (s : Stage) : Prop :=
  s.Keeps ∧ ∃ ids, Piped qs sent ids s ∧ (s.busy = false → CaughtUp qs ids s)

theorem Pipelining.congr {qs : List (Pipelined env)} {sent : Bytes} {s s' : Stage}
    (h : Pipelining qs sent s) (keeps : s'.Keeps) (course : s'.course = s.course) :
    Pipelining qs sent s' := by
  simp only [Stage.course, Prod.mk.injEq] at course
  obtain ⟨buf, busy, served, next, messages⟩ := course
  obtain ⟨-, ids, piped, caught⟩ := h
  refine ⟨keeps, ids, ⟨piped.count, buf ▸ piped.stream, next ▸ piped.old, piped.sorted,
    messages ▸ piped.messages, by rw [busy, served]; exact piped.served⟩, fun idle q hq => ?_⟩
  rw [buf]
  exact caught (busy ▸ idle) q hq

namespace Reactor

/-- A request may keep the connection. -/
theorem mayKeepAlive_of {r : Reactor} {qs : List (Pipelined env)} {ids : List Nat}
    {sent : Bytes} {q : Pipelined env} (patient : Patient env qs) (keeps : r.stage.Keeps)
    (piped : Piped qs sent ids r.stage) (idle : r.conn.busy = false)
    (next : qs[ids.length]? = some q) : r.mayKeepAlive env q.parsed = true := by
  obtain ⟨hlt, -⟩ := List.getElem?_eq_some_iff.mp next
  have served : r.conn.served + 1 ≤ qs.length := by
    have := piped.served
    simp only [stage, idle, Bool.toNat_false] at this
    omega
  have young : r.conn.ageExpired = false := keeps.young
  have draining : r.draining = false := keeps.draining
  have requests : env.cfg.maxRequestsPerConn ≤ 0 ∨
      (r.conn.served : Int) + 1 < env.cfg.maxRequestsPerConn := by
    rcases patient.requests with h | h
    · exact .inl h
    · exact .inr (by omega)
  simp [mayKeepAlive, q.keeps, patient.keepAlive, young, draining, requests]

/-- `processConn` on a beginning of the stream. -/
theorem pipelining_processConn {r : Reactor} {qs : List (Pipelined env)} {sent : Bytes}
    {ids : List Nat} (patient : Patient env qs) (within : sent <+: Pipelined.stream qs)
    (keeps : r.stage.Keeps) (piped : Piped qs sent ids r.stage)
    (budget : r.overInFlightBudget env = false) :
    Pipelining qs sent (r.processConn env).stage := by
  have caught : r.conn.busy = false → (CaughtUp qs ids r.stage) →
      Pipelining qs sent r.stage := fun _ h => ⟨keeps, ids, piped, fun _ => h⟩
  have streaming : r.conn.streamingBody = false := keeps.streaming
  have h2 : r.conn.h2 = false := keeps.h2
  have closing : r.conn.closing = false := keeps.closing
  unfold processConn
  rw [if_neg (by simp [streaming]), if_neg (by simp [h2])]
  by_cases busy : r.conn.busy = true
  · have plain : r.looksH2 env = false := by simp [looksH2, busy]
    rw [if_neg (by simp [plain]), processLoop_succ, if_pos (.inl busy)]
    exact ⟨keeps, ids, piped, fun h => by simp [stage, busy] at h⟩
  · replace busy : r.conn.busy = false := by simpa using busy
    cases next : qs[ids.length]? with
    | none =>
        -- nothing is left to come
        have buf : r.conn.buf = [] := piped.buf_nil within next
        have plain : r.looksH2 env = false := by simp [looksH2, buf]
        rw [if_neg (by simp [plain]), processLoop_succ, if_neg (by simp [busy, closing])]
        have same : (r.processHead env).1 = r := by
          simp [processHead, buf, awaitHead, findSub, crlf2]
        rw [same]
        exact caught busy fun q hq => by simp [next] at hq
    | some q =>
        have pre := piped.buf_prefix within next
        by_cases short : r.conn.buf.length < q.wire.length
        · have here : CaughtUp qs ids r.stage := by
            intro q' hq'
            obtain rfl : q = q' := by simpa using next.symm.trans hq'
            exact short
          by_cases looks : r.looksH2 env = true
          · rw [if_pos looks, if_pos (looksH2_short pre looks).2]
            exact caught busy here
          · rw [if_neg looks, processLoop_succ, if_neg (by simp [busy, closing])]
            have same : (r.processHead env).1.stage = r.stage := by
              by_cases partly : r.conn.buf.length < q.head.length + 4
              · exact processHead_partial pre partly
              · -- the head is there
                have wirePre : r.conn.buf <+: q.wire :=
                  List.prefix_of_prefix_length_le pre (List.prefix_append _ _) (le_of_lt short)
                have headPre : q.head ++ crlf2 <+: r.conn.buf :=
                  List.prefix_of_prefix_length_le (List.prefix_append _ q.body) wirePre
                    (by simpa [crlf2] using partly)
                obtain ⟨part, hpart⟩ := headPre
                refine processHead_waits hpart.symm ?_
                simp only [Pipelined.wire, ← hpart, List.length_append] at short
                omega
            rw [same]
            exact caught busy here
        · -- the request is all there
          obtain ⟨rest, hrest⟩ : q.wire <+: r.conn.buf :=
            List.prefix_of_prefix_length_le (List.prefix_append _ _) pre (not_lt.mp short)
          have plain : ¬ r.looksH2 env = true := by
            intro looks
            have := (looksH2_short pre looks).1
            have len : q.wire.length = q.head.length + 4 + q.body.length := by
              simp [Pipelined.wire, crlf2]
              omega
            omega
          rw [if_neg plain, processLoop_succ, if_neg (by simp [busy, closing])]
          have stage := processHead_dispatches hrest.symm keeps.attached budget
          rw [mayKeepAlive_of patient keeps piped busy next] at stage
          refine ⟨?_, ids ++ [r.nextId], ?_, fun h => ?_⟩
          · rw [stage]
            refine ⟨keeps.closing, keeps.streaming, keeps.ws, keeps.h2, keeps.young,
              keeps.draining, keeps.attached, fun e he _ => ?_, keeps.queue, keeps.file,
              keeps.finishing⟩
            rcases List.mem_append.mp he with he | he
            · exact keeps.reqs e he ‹_›
            · rw [List.mem_singleton.mp he]
          · exact piped.dispatched next busy hrest.symm (by rw [stage]) (by rw [stage])
              (by rw [stage]) (by rw [stage]; rfl) (by rw [stage]; rfl)
          · rw [stage] at h
            cases h

/-! ### Answers -/

theorem closeConn_trace (r : Reactor) : r.trace <+: r.closeConn.trace := by
  unfold closeConn
  split
  · exact List.prefix_rfl
  · exact List.prefix_append _ _

theorem writeAnswer_trace {r : Reactor} {ps : List Piece} {ka fin : Bool}
    (http : r.conn.ws = false) :
    (r.startAnswer env ps ka fin).trace <+: (r.writeAnswer env ps ka fin).trace := by
  have hws : (r.startAnswer env ps ka fin).conn.ws = false := http
  unfold writeAnswer
  dsimp only
  split
  · rename_i h
    simp [hws] at h
  · split
    · exact List.IsPrefix.trans (List.prefix_append _ [_]) (closeConn_trace (broadcastEvent ..))
    · exact List.prefix_rfl

/-- An answer piece is written, and the stream cap is not passed. -/
theorem stage_writeAnswer {r : Reactor} {ps : List Piece} {ka fin : Bool}
    (http : r.conn.ws = false)
    (calm : ∀ ev ∈ (r.writeAnswer env ps ka fin).trace, ev.overStream env = false) :
    (r.writeAnswer env ps ka fin).stage = { r.stage with
      busy := true, finishing := r.stage.finishing ++ if fin then [ka] else [] } := by
  have hws : (r.startAnswer env ps ka fin).conn.ws = false := http
  have wrote : (.write ps ka fin (r.startAnswer env ps ka fin).conn.writePending : Ev) ∈
      (r.startAnswer env ps ka fin).trace := by
    simp [startAnswer, issueWrite, setConn, wireSize]
  have level := calm _ ((writeAnswer_trace http).mem wrote)
  have start : (r.startAnswer env ps ka fin).stage = { r.stage with
      busy := true, finishing := r.stage.finishing ++ if fin then [ka] else [] } := by
    rw [startAnswer, stage_issueWrite]
    rfl
  rw [← start]
  unfold writeAnswer
  simp only [hws]
  rw [if_neg (by simp), if_neg ?_]
  rintro ⟨-, more, cap, beyond, -⟩
  obtain rfl : fin = false := by simpa using more
  exact absurd beyond (by simpa [Ev.overStream, cap] using level)

/-- Answers in the inbox of a busy connection go out. -/
theorem keeps_writeGroup {r : Reactor} {g : Pending × List Pending} (keeps : r.stage.Keeps)
    (busy : r.conn.busy = true)
    (own : ∀ e ∈ g.1 :: g.2, g.1.connId = r.conn.id →
      e.keepAlive = true ∧ ∀ f, e.file = some f → f.keepAlive = true ∧ 0 < f.remaining)
    (calm : ∀ ev ∈ (r.writeGroup env g).trace, ev.overStream env = false) :
    (r.writeGroup env g).stage.Keeps ∧ (r.writeGroup env g).stage.course = r.stage.course ∧
      (r.writeGroup env g).conn.id = r.conn.id := by
  have http : r.conn.ws = false := keeps.ws
  revert calm
  unfold writeGroup
  split
  · exact fun _ => ⟨keeps, rfl, rfl⟩
  · rename_i here
    replace here : g.1.connId = r.conn.id := by
      by_contra h
      exact here (.inl h)
    split
    · rename_i f hf
      intro calm
      have stage := stage_writeAnswer (r := r.setConn { r.conn with file := some f }) http calm
      refine ⟨?_, by rw [stage]; simp [Stage.course, Reactor.stage, setConn, busy],
        congrArg Stage.id stage⟩
      rw [stage]
      refine ⟨keeps.closing, keeps.streaming, keeps.ws, keeps.h2, keeps.young, keeps.draining,
        keeps.attached, keeps.reqs, keeps.queue, fun f' hf' => ?_, ?_⟩
      · obtain rfl : f = f' := by simpa [Reactor.stage, setConn] using hf'
        exact (own g.1 List.mem_cons_self here).2 f hf
      · simpa [Reactor.stage, setConn] using keeps.finishing
    · intro calm
      have stage := stage_writeAnswer http calm
      have ka := (own _ (List.getLast_mem (List.cons_ne_nil _ _)) here).1
      refine ⟨?_, by rw [stage]; simp [Stage.course, Reactor.stage, busy],
        congrArg Stage.id stage⟩
      rw [stage]
      refine ⟨keeps.closing, keeps.streaming, keeps.ws, keeps.h2, keeps.young, keeps.draining,
        keeps.attached, keeps.reqs, keeps.queue, keeps.file, fun ka' hka' => ?_⟩
      rcases List.mem_append.mp hka' with h | h
      · exact keeps.finishing ka' h
      · split at h
        · exact (List.mem_singleton.mp h).trans ka
        · cases h

theorem writeGroup_trace {r : Reactor} {g : Pending × List Pending} (http : r.conn.ws = false) :
    r.trace <+: (r.writeGroup env g).trace := by
  have start : ∀ (r : Reactor) (ps : List Piece) (ka fin : Bool), r.conn.ws = false →
      r.trace <+: (r.writeAnswer env ps ka fin).trace := fun r ps ka fin http =>
    List.IsPrefix.trans (List.prefix_append _ [_]) (writeAnswer_trace http)
  unfold writeGroup
  split
  · exact List.prefix_rfl
  · split
    · rename_i f _
      exact start (r.setConn { r.conn with file := some f }) _ _ _ http
    · exact start r _ _ _ http

theorem writeAnswer_http {r : Reactor} {ps : List Piece} {ka fin : Bool}
    (http : r.conn.ws = false) : (r.writeAnswer env ps ka fin).conn.ws = false := by
  obtain heq | ⟨r₁, quiet, heq⟩ := writeAnswer_cases env http
  · rw [heq]
    exact http
  · rw [heq]
    have : r₁.closeConn.conn.ws = r₁.conn.ws := congrArg Lane.ws (lane_closeConn r₁)
    exact this.trans (quiet.ws.trans http)

theorem writeGroup_http {r : Reactor} {g : Pending × List Pending} (http : r.conn.ws = false) :
    (r.writeGroup env g).conn.ws = false := by
  unfold writeGroup
  split
  · exact http
  · split
    · exact writeAnswer_http http
    · exact writeAnswer_http http

theorem writeGroups_trace (gs : List (Pending × List Pending)) {r : Reactor}
    (http : r.conn.ws = false) : r.trace <+: (gs.foldl (writeGroup env) r).trace := by
  induction gs generalizing r with
  | nil => exact List.prefix_rfl
  | cons g gs ih => exact (writeGroup_trace http).trans (ih (writeGroup_http http))

/-- The groups of a batch go out one after another. -/
theorem keeps_writeGroups {gs : List (Pending × List Pending)} {r : Reactor}
    (keeps : r.stage.Keeps)
    (own : ∀ g ∈ gs, ∀ e ∈ g.1 :: g.2, g.1.connId = r.conn.id →
      r.conn.busy = true ∧ e.keepAlive = true ∧
        ∀ f, e.file = some f → f.keepAlive = true ∧ 0 < f.remaining)
    (calm : ∀ ev ∈ (gs.foldl (writeGroup env) r).trace, ev.overStream env = false) :
    (gs.foldl (writeGroup env) r).stage.Keeps ∧
      (gs.foldl (writeGroup env) r).stage.course = r.stage.course := by
  induction gs generalizing r with
  | nil => exact ⟨keeps, rfl⟩
  | cons g gs ih =>
      by_cases here : g.1.connId = r.conn.id
      · have busy := (own g List.mem_cons_self g.1 List.mem_cons_self here).1
        rw [List.foldl_cons] at calm ⊢
        obtain ⟨keeps', course, id⟩ := keeps_writeGroup (g := g) keeps busy
          (fun e he h => (own g List.mem_cons_self e he h).2)
          fun ev hev => calm ev ((writeGroups_trace gs (writeGroup_http keeps.ws)).mem hev)
        have busy' : (r.writeGroup env g).conn.busy = true := by
          have : (r.writeGroup env g).conn.busy = r.conn.busy := congrArg (·.2.1) course
          rw [this, busy]
        obtain ⟨kept, course'⟩ := ih keeps' (fun g' hg' e he h =>
          ⟨busy', (own g' (List.mem_cons_of_mem _ hg') e he (h.trans id)).2⟩) calm
        exact ⟨kept, course'.trans course⟩
      · have same : r.writeGroup env g = r := by
          unfold writeGroup
          rw [if_pos (.inl here)]
        rw [List.foldl_cons, same] at calm ⊢
        exact ih keeps (fun g' hg' => own g' (List.mem_cons_of_mem _ hg')) calm

/-- The inbox is drained. -/
theorem pipelining_onAsync {r : Reactor} {qs : List (Pipelined env)} {sent : Bytes}
    (hwf : r.WF) (h : Pipelining qs sent r.stage)
    (calm : ∀ ev ∈ (r.onAsync env).trace, ev.overStream env = false) :
    Pipelining qs sent (r.onAsync env).stage := by
  have keeps := h.1
  have batch : ({ r with queue := [] } : Reactor).stage.Keeps :=
    ⟨keeps.closing, keeps.streaming, keeps.ws, keeps.h2, keeps.young, keeps.draining,
      keeps.attached, keeps.reqs, by simp [stage], keeps.file, keeps.finishing⟩
  have own : ∀ g ∈ groups r.queue, ∀ e ∈ g.1 :: g.2, g.1.connId = r.conn.id →
      r.conn.busy = true ∧ e.keepAlive = true ∧
        ∀ f, e.file = some f → f.keepAlive = true ∧ 0 < f.remaining := by
    intro g hg e he here
    have queued : e ∈ r.queue := by
      rw [← groups_flatten r.queue]
      exact List.mem_flatMap.mpr ⟨g, hg, he⟩
    have same : e.connId = r.conn.id := by
      rcases List.mem_cons.mp he with rfl | he
      · exact here
      · exact ((groups_grouped r.queue g hg).same e he).1.trans here
    refine ⟨?_, keeps.queue e queued same⟩
    -- an idle connection has nothing in the inbox
    by_contra idle
    have empty := (hwf.sound.idle (eq_false_of_ne_true idle)).2
    have : e ∈ r.lane.queue := List.mem_filter.mpr ⟨queued, by simpa using same⟩
    simp [empty] at this
  obtain ⟨kept, course⟩ := keeps_writeGroups batch own calm
  exact h.congr kept course

/-- The next piece of a file goes out. -/
theorem pipelining_continueFileSend {r : Reactor} {qs : List (Pipelined env)} {sent got : Bytes}
    (hwf : r.WF) (h : Pipelining qs sent r.stage) (read : r.conn.file.isNone = true ∨ got ≠ [])
    (calm : ∀ ev ∈ (r.continueFileSend env got).trace, ev.overStream env = false) :
    Pipelining qs sent (r.continueFileSend env got).stage := by
  have keeps := h.1
  have closing : r.conn.closing = false := keeps.closing
  revert calm
  unfold continueFileSend
  split
  · exact fun _ => h
  · rename_i f hf
    obtain ⟨ka, pos⟩ := keeps.file f hf
    have busy : r.conn.busy = true := (hwf.sound.of_file hf).2.2.2.1
    rw [if_neg (by simp [closing])]
    dsimp only
    have some : got.take (min kChunk f.remaining) ≠ [] := by
      have full : got ≠ [] := read.resolve_left (by simp [hf])
      have len : 0 < min kChunk f.remaining := by
        unfold kChunk
        omega
      intro hnil
      rcases List.take_eq_nil_iff.mp hnil with h | h
      · omega
      · exact full h
    rw [if_neg some]
    set left := f.remaining - (got.take (min kChunk f.remaining)).length
    set file : Option FileSend := if left = 0 then none else
      Option.some ⟨f.requestId, f.offset + (got.take (min kChunk f.remaining)).length, left,
        f.keepAlive⟩ with hfile
    intro calm
    have stage := stage_writeAnswer (r := r.setConn { r.conn with file := file }) keeps.ws calm
    refine h.congr ?_ (by rw [stage]; simp [Stage.course, Reactor.stage, setConn, busy])
    rw [stage]
    refine ⟨keeps.closing, keeps.streaming, keeps.ws, keeps.h2, keeps.young, keeps.draining,
      keeps.attached, keeps.reqs, keeps.queue, fun f' hf' => ?_, fun ka' hka' => ?_⟩
    · have : file = Option.some f' := hf'
      rw [hfile] at this
      split at this
      · cases this
      · rename_i more
        obtain rfl := Option.some.inj this
        exact ⟨ka, Nat.pos_of_ne_zero more⟩
    · rcases List.mem_append.mp hka' with h | h
      · exact keeps.finishing ka' h
      · split at h
        · exact (List.mem_singleton.mp h).trans ka
        · cases h

/-- A write completed. -/
theorem pipelining_onWrite {r : Reactor} {qs : List (Pipelined env)} {sent got : Bytes}
    {w : WriteCtx} {rest : List WriteCtx} (patient : Patient env qs)
    (within : sent <+: Pipelined.stream qs) (hwf : r.WF) (h : Pipelining qs sent r.stage)
    (writes : r.conn.writes = w :: rest) (read : r.conn.file.isNone = true ∨ got ≠ [])
    (budget : r.overInFlightBudget env = false)
    (calm : ∀ ev ∈ (r.onWrite env w rest true got).trace, ev.overStream env = false) :
    Pipelining qs sent (r.onWrite env w rest true got).stage := by
  have keeps := h.1
  have fins : r.stage.finishing = (if w.finish then [w.keepAlive] else []) ++ finishingOf rest := by
    cases hw : w.finish <;> simp [stage, writes, finishingOf, hw]
  have done : (r.writeDone w rest).stage.Keeps :=
    ⟨keeps.closing, keeps.streaming, keeps.ws, keeps.h2, keeps.young, keeps.draining,
      keeps.attached, keeps.reqs, keeps.queue, keeps.file,
      fun ka hka => keeps.finishing ka (fins ▸ List.mem_append_right _ hka)⟩
  revert calm
  unfold onWrite
  simp only [Bool.not_true, Bool.false_eq_true, if_false]
  split
  · rename_i more
    have more : w.finish = false := by simpa using more
    have same : (r.writeDone w rest).lane = r.lane := by
      simp [writeDone, lane, setConn, finishingOf, writes, more, ownReqs, ownQueue]
    split
    · intro calm
      refine pipelining_continueFileSend ?_ (h.congr done rfl) read calm
      have quiet : Tracks anyStep r (r.writeDone w rest) := Quiet.tracks ⟨same, rfl, rfl⟩
      exact hwf.tracks quiet
    · exact fun _ => h.congr done rfl
  · rename_i last
    have last : w.finish = true := by simpa using last
    have ka : w.keepAlive = true := keeps.finishing _ (by simp [fins, last])
    intro _
    unfold onFinished
    rw [ka, if_neg (by simp [show (r.writeDone w rest).conn.closing = false from keeps.closing])]
    obtain ⟨-, ids, piped, -⟩ := h
    have busy : r.conn.busy = true := by
      have mem : true ∈ r.lane.finishing := by
        have : true ∈ r.stage.finishing := by simp [fins, last, ka]
        exact this
      exact (hwf.sound.of_landing mem).2.2.2.2.1
    have beyond : Piped qs sent ids (r.writeDone w rest).requestOver.reopen.stage := by
      refine ⟨piped.count, piped.stream, piped.old, piped.sorted, piped.messages, ?_⟩
      have := piped.served
      simpa [stage, busy, reopen, requestOver, writeDone, setConn] using this
    exact pipelining_processConn patient within ⟨done.closing, done.streaming, done.ws, done.h2,
      done.young, done.draining, done.attached, done.reqs, done.queue, done.file,
      done.finishing⟩ beyond budget

/-! ### Answer calls -/

theorem pipelining_eraseReq {r : Reactor} {qs : List (Pipelined env)} {sent : Bytes}
    (h : Pipelining qs sent r.stage) (id : Nat) : Pipelining qs sent (r.eraseReq id).stage := by
  have keeps := h.1
  refine h.congr ⟨keeps.closing, keeps.streaming, keeps.ws, keeps.h2, keeps.young,
    keeps.draining, keeps.attached, fun e he => keeps.reqs e (List.mem_filter.mp he).1,
    keeps.queue, keeps.file, keeps.finishing⟩ ?_
  simp [Stage.course, stage, eraseReq, Ev.message]

theorem pipelining_pushWrite {r : Reactor} {qs : List (Pipelined env)} {sent : Bytes}
    (h : Pipelining qs sent r.stage) {e : Pending}
    (own : e.connId = r.conn.id →
      e.keepAlive = true ∧ ∀ f, e.file = some f → f.keepAlive = true ∧ 0 < f.remaining) :
    Pipelining qs sent (r.pushWrite e).stage := by
  have keeps := h.1
  refine h.congr ⟨keeps.closing, keeps.streaming, keeps.ws, keeps.h2, keeps.young,
    keeps.draining, keeps.attached, keeps.reqs, fun e' he' => ?_, keeps.file,
    keeps.finishing⟩ ?_
  · rcases List.mem_append.mp he' with he' | he'
    · exact keeps.queue e' he'
    · rw [List.mem_singleton.mp he']
      exact own
  · simp [Stage.course, stage, pushWrite, Ev.message]

/-- The answer of a request of this connection keeps it. -/
theorem keepAlive_of_findReq {r : Reactor} (keeps : r.stage.Keeps) {id : Nat} {loc : ReqLoc}
    (found : r.findReq id = some loc) (own : loc.connId = r.conn.id) : loc.keepAlive = true := by
  obtain ⟨e, he, rfl⟩ := Option.map_eq_some_iff.mp found
  exact keeps.reqs e (List.mem_of_find?_eq_some he) own

theorem pipelining_respondWith {r : Reactor} {qs : List (Pipelined env)} {sent : Bytes}
    (h : Pipelining qs sent r.stage) (id status : Nat) (headers : List Header) (body : Bytes)
    (n : Nat) : Pipelining qs sent (r.respondWith env id status headers body n).stage := by
  unfold respondWith
  split
  · exact h
  · split
    · exact h
    · rename_i loc found
      exact pipelining_pushWrite (pipelining_eraseReq h id) fun own =>
        ⟨keepAlive_of_findReq h.1 found own, by simp⟩

theorem pipelining_respondFile {r : Reactor} {qs : List (Pipelined env)} {sent : Bytes}
    (h : Pipelining qs sent r.stage) (id status : Nat) (headers : List Header)
    (size : Option Nat) (offset length : Int) :
    Pipelining qs sent (r.respondFile env id status headers size offset length).stage := by
  unfold respondFile
  split
  · exact h
  · split
    · exact pipelining_respondWith h ..
    · dsimp only
      split
      · exact pipelining_respondWith h ..
      · split
        · exact h
        · rename_i loc found
          split
          · exact pipelining_respondWith h ..
          · rename_i more
            refine pipelining_pushWrite (pipelining_eraseReq h id) fun own => ?_
            have ka := keepAlive_of_findReq h.1 found own
            refine ⟨ka, fun f hf => ?_⟩
            obtain rfl := Option.some.inj hf
            exact ⟨ka, Nat.pos_of_ne_zero (not_or.mp more).2⟩

theorem pipelining_startStream {r : Reactor} {qs : List (Pipelined env)} {sent : Bytes}
    (h : Pipelining qs sent r.stage) (id status : Nat) (headers : List Header) :
    Pipelining qs sent (r.startStream env id status headers).stage := by
  unfold startStream
  split
  · exact h
  · split
    · exact h
    · rename_i loc found
      dsimp only
      split
      · exact pipelining_eraseReq (pipelining_pushWrite h fun own =>
          ⟨keepAlive_of_findReq h.1 found own, by simp⟩) id
      · exact pipelining_pushWrite h fun own => ⟨keepAlive_of_findReq h.1 found own, by simp⟩

theorem pipelining_sendStreamChunk {r : Reactor} {qs : List (Pipelined env)} {sent : Bytes}
    (h : Pipelining qs sent r.stage) (id : Nat) (chunk : Bytes) (last : Bool) :
    Pipelining qs sent (r.sendStreamChunk id chunk last).stage := by
  unfold sendStreamChunk
  split
  · exact h
  · split
    · exact h
    · split
      · exact h
      · rename_i loc found
        dsimp only
        split
        · exact pipelining_pushWrite (pipelining_eraseReq h id) fun own =>
            ⟨keepAlive_of_findReq h.1 found own, by simp⟩
        · exact pipelining_pushWrite h fun own => ⟨keepAlive_of_findReq h.1 found own, by simp⟩

end Reactor

/-! ### Runs -/

/-- What happens besides the reads: answers are queued, written and completed, time
passes, other connections work. Writes succeed, files can be read, an isolate is
attached, the server is not over its budget, and the busy buffer is under its cap. -/
def obliges (env : Env) (r : Reactor) : Act → Bool
  | .read data => !(r.received data).busyBufferFull env && !r.overInFlightBudget env
  | .written ok got => ok && (r.conn.file.isNone || !got.isEmpty) && !r.overInFlightBudget env
  | .attach emitter => emitter.isSome
  | .readEnd | .sweep | .closed | .beginDrain => false
  | _ => true

/-- A step in which no stream outruns its reader. -/
def obligingStep (env : Env) (r : Reactor) (a : Act) : Option Reactor :=
  (guarded (fun r a => obliges env r a = true) (step env) r a).filter
    fun r' => r'.trace.all fun ev => !ev.overStream env

open Reactor in
theorem pipelining_step {r r' : Reactor} {a : Act} {qs : List (Pipelined env)} {sent : Bytes}
    (patient : Patient env qs) (within : sent ++ a.data <+: Pipelined.stream qs) (hwf : r.WF)
    (h : Pipelining qs sent r.stage) (hok : obliges env r a = true)
    (hstep : step env r a = some r') (calm : ∀ ev ∈ r'.trace, ev.overStream env = false) :
    Pipelining qs (sent ++ a.data) r'.stage := by
  have keeps := h.1
  have rest : a.data = [] → Pipelining qs sent r'.stage →
      Pipelining qs (sent ++ a.data) r'.stage := by
    intro hdata h
    rwa [hdata, List.append_nil]
  cases a with
  | read data =>
      simp only [obliges, Bool.and_eq_true, Bool.not_eq_true'] at hok
      simp only [step, Option.ite_none_right_eq_some, Option.some.injEq] at hstep
      obtain ⟨-, rfl⟩ := hstep
      unfold readCb
      dsimp only
      rw [if_neg (by simp [hok.1]),
        if_neg (by simp [show (r.received data).conn.streamingBody = false from keeps.streaming]),
        if_neg (by simp [show (r.received data).conn.ws = false from keeps.ws])]
      obtain ⟨-, ids, piped, -⟩ := h
      have piped' : Piped qs (sent ++ data) ids (r.received data).stage := by
        refine ⟨piped.count, ?_, piped.old, piped.sorted, piped.messages, piped.served⟩
        rw [piped.stream, List.append_assoc]
        rfl
      exact pipelining_processConn patient within ⟨keeps.closing, keeps.streaming, keeps.ws,
        keeps.h2, keeps.young, keeps.draining, keeps.attached, keeps.reqs, keeps.queue,
        keeps.file, keeps.finishing⟩ piped' hok.2
  | written ok got =>
      simp only [obliges, Bool.and_eq_true, Bool.or_eq_true, Bool.not_eq_true',
        List.isEmpty_eq_false_iff] at hok
      obtain ⟨⟨rfl, read⟩, budget⟩ := hok
      simp only [step] at hstep
      split at hstep
      · cases hstep
      · rename_i w left writes
        simp only [Option.ite_none_left_eq_some, Option.some.injEq] at hstep
        obtain ⟨-, rfl⟩ := hstep
        have within' : sent <+: Pipelined.stream qs := by simpa [Act.data] using within
        exact rest rfl (pipelining_onWrite patient within' hwf h writes read budget calm)
  | async =>
      cases hstep
      exact rest rfl (pipelining_onAsync hwf h calm)
  | readEnd | sweep | closed | beginDrain => simp [obliges] at hok
  | respond id status headers body =>
      cases hstep
      exact rest rfl (pipelining_respondWith h ..)
  | respondFile id status headers size offset length =>
      cases hstep
      exact rest rfl (pipelining_respondFile h ..)
  | startStream id status headers =>
      cases hstep
      exact rest rfl (pipelining_startStream h ..)
  | sendStreamChunk id bytes last =>
      cases hstep
      exact rest rfl (pipelining_sendStreamChunk h ..)
  | wsSend payload binary compressed =>
      -- only a session is in the table of sessions
      have absent : r.conn.id ∉ r.wsConnLoop := fun mem => by
        have := hwf.session mem
        simp [show r.conn.ws = false from keeps.ws] at this
      have same : r.wsSend payload binary compressed = r := by simp [wsSend, absent]
      cases hstep
      exact rest rfl (by rw [same]; exact h)
  | wsClose code =>
      have absent : r.conn.id ∉ r.wsConnLoop := fun mem => by
        have := hwf.session mem
        simp [show r.conn.ws = false from keeps.ws] at this
      have same : r.wsClose code = r := by simp [wsClose, absent]
      cases hstep
      exact rest rfl (by rw [same]; exact h)
  | tick ms =>
      cases hstep
      exact rest rfl h
  | newId =>
      cases hstep
      obtain ⟨-, ids, piped, caught⟩ := h
      refine rest rfl ⟨⟨keeps.closing, keeps.streaming, keeps.ws, keeps.h2, keeps.young,
        keeps.draining, keeps.attached, keeps.reqs, keeps.queue, keeps.file, keeps.finishing⟩,
        ids, ⟨piped.count, piped.stream, fun i hi => (piped.old i hi).trans (Nat.lt_succ_self _),
        piped.sorted, piped.messages, piped.served⟩, caught⟩
  | attach emitter =>
      cases hstep
      exact rest rfl (h.congr ⟨keeps.closing, keeps.streaming, keeps.ws, keeps.h2, keeps.young,
        keeps.draining, hok, keeps.reqs, keeps.queue, keeps.file, keeps.finishing⟩ rfl)
  | tlsFlight cipher =>
      simp only [step, Option.ite_none_right_eq_some, Option.some.injEq] at hstep
      obtain ⟨-, rfl⟩ := hstep
      have same : (r.tlsRawWrite cipher).stage = r.stage := by
        unfold tlsRawWrite
        split
        · rfl
        · simp [stage, finishingOf, Ev.message]
      exact rest rfl (by rw [same]; exact h)
  | otherRequest loc =>
      simp only [step, Option.ite_none_left_eq_some, Option.some.injEq] at hstep
      obtain ⟨other, rfl⟩ := hstep
      obtain ⟨-, ids, piped, caught⟩ := h
      refine rest rfl ⟨⟨keeps.closing, keeps.streaming, keeps.ws, keeps.h2, keeps.young,
        keeps.draining, keeps.attached, fun e he own => ?_, keeps.queue, keeps.file,
        keeps.finishing⟩, ids, ⟨piped.count, piped.stream,
        fun i hi => (piped.old i hi).trans (Nat.lt_succ_self _), piped.sorted, piped.messages,
        piped.served⟩, caught⟩
      rcases List.mem_append.mp he with he | he
      · exact keeps.reqs e he own
      · rw [List.mem_singleton.mp he] at own
        exact absurd own other
  | otherRetire id =>
      simp only [step] at hstep
      split at hstep
      · simp only [Option.ite_none_left_eq_some, Option.some.injEq] at hstep
        obtain ⟨-, rfl⟩ := hstep
        exact rest rfl (pipelining_eraseReq h id)
      · cases hstep
  | otherPush entry =>
      simp only [step, Option.ite_none_left_eq_some, Option.some.injEq] at hstep
      obtain ⟨other, rfl⟩ := hstep
      exact rest rfl (pipelining_pushWrite h fun own => absurd own other)

/-- A run of a connection that is sent a beginning of the stream. -/
theorem pipelining_exec {r t : Reactor} {acts : List Act} {qs : List (Pipelined env)}
    (patient : Patient env qs) (fresh : Fresh r) (draining : r.draining = false)
    (attached : r.emitter.isSome = true) (run : exec (obligingStep env) acts r = some t)
    (within : acts.flatMap Act.data <+: Pipelined.stream qs) :
    t.WF ∧ Pipelining qs (acts.flatMap Act.data) t.stage := by
  induction acts using List.reverseRecOn generalizing t with
  | nil =>
      obtain rfl : r = t := by simpa [exec] using run
      refine ⟨fresh.wf, ?_⟩
      have conn := fresh.conn
      have start : r.stage = ⟨r.conn.id, [], false, false, false, false, false, false, 0, none, [],
          r.reqLoc, r.queue, r.nextId, false, r.emitter, []⟩ := by
        unfold Reactor.stage
        rw [conn, draining, fresh.trace]
        rfl
      rw [start]
      refine ⟨⟨rfl, rfl, rfl, rfl, rfl, rfl, attached, fun e he own => ?_, fun e he own => ?_,
        by simp, by simp⟩, [], ⟨by simp, by simp [Pipelined.stream], by simp, .nil, rfl, by simp⟩,
        fun _ q hq => ?_⟩
      · exact absurd own (fresh.reqLoc e he).1
      · exact absurd own (fresh.queue e he)
      · simp only [Pipelined.wire, crlf2, List.length_append, List.length_cons, List.length_nil]
        omega
  | append_singleton acts a ih =>
      rw [exec_append] at run
      obtain ⟨mid, before, run⟩ := Option.bind_eq_some_iff.mp run
      obtain ⟨t', here, run⟩ := Option.bind_eq_some_iff.mp run
      obtain rfl : t' = t := by simpa [exec] using run
      simp only [List.flatMap_append, List.flatMap_singleton] at within ⊢
      obtain ⟨wf, held⟩ := ih before ((List.prefix_append _ _).trans within)
      simp only [obligingStep, Option.filter_eq_some_iff, guarded,
        Option.ite_none_right_eq_some, List.all_eq_true, Bool.not_eq_true'] at here
      obtain ⟨⟨hok, hstep⟩, calm⟩ := here
      exact ⟨wf.step env hstep, pipelining_step patient within wf held hok hstep calm⟩

/-- A request of the sample server. -/
def samplePost : Pipelined sampleEnv where
  head := ascii "POST /post HTTP/1.1\r\nHost: a\r\nContent-Length: 5"
  body := ascii "a\r\n\r\n"
  parsed := parseRequestHead
    (ascii "POST /post HTTP/1.1\r\nHost: a\r\nContent-Length: 5\r\n\r\n") 47
  route := {}
  params := []
  parses := by decide +kernel
  cut := by decide +kernel
  short := by decide +kernel
  ok := by
    rw [ascii_ofList]
    decide +kernel
  framing := by
    rw [ascii_ofList]
    decide +kernel
  length := by decide +kernel
  routed := by
    rw [ascii_ofList]
    decide +kernel
  fits := by decide +kernel
  handler := by decide
  plain := by
    rw [ascii_ofList]
    decide +kernel
  keeps := by
    rw [ascii_ofList]
    decide +kernel

/-- Two of them, the first cut inside its blank line, the second inside its body. -/
def pipelinedPosts : List Act :=
  [.read (ascii "POST /post HTTP/1.1\r\nHost: a\r\nContent-Length: 5\r\n\r"),
    .read (ascii "\na\r\n\r\nPOST /post HTTP/1.1\r\nHost: a\r\nContent-Length: 5\r\n\r\na\r\n\r"),
    .respond 1 200 [] [], .async, .written true [], .read [10], .respond 2 200 [] [], .async,
    .written true []]

end NitroServer.Engine
