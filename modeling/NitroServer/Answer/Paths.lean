/-
Streamed, static and file answers on the wire.

`respond` drops a body that its status does not allow; the three other paths build their
framing on their own and send what they were given. `Wires` is what each of them puts on the
wire of a connection, from the answer call to the last write. A reader takes it for exactly
one response when the request is HEAD, when the status has content, and, for the two paths
that announce a length, when there is nothing to send (`wires_framed_iff`): a 204 or 304 with
something behind its head leaves bytes that the next response starts with.
-/

import NitroServer.Answer.Stream

namespace NitroServer.Answer

open NitroServer.Engine NitroServer.Lib NitroServer.Lib.HttpReader NitroServer.Chunked

/-- The bytes are exactly one response to the request, with the status and the content. -/
def OneAnswer (isHead : Bool) (status : Nat) (content answer : Bytes) : Prop :=
  ∃ fields, readResponse isHead answer =
    some (⟨status, fields, contentOf isHead status content⟩, [])

/-! ### Heads and what follows them -/

section Framed

variable (tm : Tm) {status : Nat} (low : 200 ≤ status) (high : status ≤ 599)
  (headers : List Header) (keepAlive : Bool) (secs : Option Nat)

include low high

/-- A head with a length, and the content behind it unless the request was HEAD. -/
theorem oneShot_framed_iff {isHead : Bool} {contentLength : Nat} {content : Bytes}
    (length : isHead = false → contentLength = content.length) :
    OneAnswer isHead status content
        (uvBuildHead (uvDateHeader tm) status headers contentLength keepAlive secs ++
          if isHead then [] else content) ↔
      isHead = true ∨ bodyless status = false ∨ content = [] := by
  by_cases sends_ : (if isHead then [] else content) = contentOf isHead status content
  · have reads := oneShot_reads tm low high headers keepAlive secs isHead content length []
    rw [List.append_nil, ← sends_] at reads
    have one : OneAnswer isHead status content
        (uvBuildHead (uvDateHeader tm) status headers contentLength keepAlive secs ++
          if isHead then [] else content) := by
      rw [OneAnswer, ← sends_]
      exact ⟨_, reads⟩
    refine ⟨fun _ => ?_, fun _ => one⟩
    cases isHead with
    | true => exact Or.inl rfl
    | false =>
        cases none_ : bodyless status with
        | false => exact Or.inr (Or.inl rfl)
        | true =>
            rw [contentOf, none_] at sends_
            exact Or.inr (Or.inr sends_)
  · -- content behind a head that has none
    have shape : isHead = false ∧ bodyless status = true ∧ content ≠ [] := by
      cases isHead with
      | true => exact absurd rfl sends_
      | false =>
          cases none_ : bodyless status with
          | false => exact absurd (by rw [contentOf, none_]; rfl) sends_
          | true =>
              refine ⟨rfl, rfl, fun empty => sends_ ?_⟩
              rw [contentOf, none_]
              exact empty
    obtain ⟨rfl, none_, full⟩ := shape
    have nothing : contentOf false status content = [] := by rw [contentOf, none_]; rfl
    have reads := oneShot_reads tm low high headers keepAlive secs false content length content
    rw [nothing, List.nil_append] at reads
    constructor
    · rintro ⟨fields, one⟩
      rw [if_neg Bool.false_ne_true, reads] at one
      have left := congrArg Prod.snd (Option.some.inj one)
      exact absurd left full
    · rintro (head | content_ | empty)
      · cases head
      · rw [none_] at content_
        cases content_
      · exact absurd empty full

/-- A head with the chunked coding, and the encoded body behind it unless the request was
HEAD. -/
theorem stream_framed_iff (isHead : Bool) (cs : List Bytes) (c : Bytes) :
    OneAnswer isHead status (cs ++ [c]).flatten
        (uvBuildStreamHead (uvDateHeader tm) status headers keepAlive secs ++
          if isHead then [] else encoded cs c) ↔
      isHead = true ∨ bodyless status = false := by
  have code := statusText_read low high
  have reads := fun rest => readResponse_head (text_statusText status) code
    (streamFields_legal tm headers keepAlive secs) isHead rest
  rw [← uvBuildStreamHead_eq, stripped_stream, framing_stream tm headers keepAlive secs low high]
    at reads
  rw [OneAnswer, reads]
  cases isHead with
  | true =>
      refine ⟨fun _ => Or.inl rfl, fun _ => ⟨_, rfl⟩⟩
  | false =>
      rw [if_neg Bool.false_ne_true]
      cases none_ : bodyless status with
      | false =>
          have full : ∀ d ∈ (cs ++ [c]).filter (· ≠ []), d ≠ [] := by
            intro d mem
            simpa using (List.mem_filter.mp mem).2
          have content := readContent_chunked full []
          rw [List.append_nil, ← encoded_eq, flatten_filter] at content
          refine ⟨fun _ => Or.inr rfl, fun _ => ?_⟩
          rw [Bool.or_false, if_neg Bool.false_ne_true, Option.bind_some, content, contentOf, none_]
          exact ⟨_, rfl⟩
      | true =>
          -- the last chunk at least is left over
          have left : encoded cs c ≠ [] := by
            rw [encoded_eq]
            exact List.append_ne_nil_of_right_ne_nil _ (by simp [lastChunk])
          constructor
          · rintro ⟨fields, one⟩
            have rest := congrArg Prod.snd (Option.some.inj one)
            exact absurd rest left
          · rintro (head | content)
            · cases head
            · cases content

end Framed

/-! ### What the paths put on the wire -/

/-- Nothing of the connection waits to be written. -/
def Settled (r : Reactor) : Prop := r.ownQueue = [] ∧ r.conn.file = none

instance (r : Reactor) : Decidable (Settled r) := inferInstanceAs (Decidable (_ ∧ _))

/-- The part of a file that `respondFile` sends. -/
def filePart (content : Bytes) (offset length : Int) : Bytes :=
  (content.drop offset.toNat).take (Reactor.rangeLength content.length offset.toNat length)

/-- The bytes one of the paths puts on the wire for a request, behind what the connection
owed already; the flag says that they are streamed. -/
inductive Wires (env : Env) : Bool → Bool → Nat → Bytes → Bytes → Prop
  /-- `startStream`, then the chunk calls of a script, in any batches. -/
  | stream {r₀ r t : Reactor} {id status : Nat} {loc : ReqLoc} {headers : List Header}
      {acts : List Act} {cs : List Bytes} {c answer : Bytes} {new : List (Bytes × Bool)}
      (fresh : Fresh r₀) (run : Reaches (stepOf (step env)) anyStep r₀ r)
      (running : r.running = true) (found : r.findReq id = some loc)
      (own : loc.connId = r.conn.id) (calls : acts.filterMap callOf = script cs c)
      (steps : exec (guarded (fun r a => steady [] id r a = true) (step env)) acts
        (r.startStream env id status headers) = some t)
      (settled : Settled t) (open_ : t.conn.closing = false)
      (wrote_ : wrote t = wrote r ++ new) (bytes : bytesOf new = owed [] r ++ answer) :
      Wires env true loc.isHead status (cs ++ [c]).flatten answer
  /-- The static route of `processConn`. -/
  | fixed {r : Reactor} {q : Request} {ka : Bool} {body answer : Bytes} {route : RouteEntry}
      {params : List RouteParam} {sr : StaticResponse} {new : List (Bytes × Bool)}
      (http : r.conn.ws = false) (matched : q.route = some (route, params))
      (plain : route.isWebSocket = false) (noUpgrade : uvIsWebSocketUpgrade q.head = false)
      (static : route.staticResponse = some sr)
      (wrote_ : wrote (r.answerRequest env q ka body).1 = wrote r ++ new)
      (bytes : bytesOf new = answer) :
      Wires env false (decide (q.head.method = .head)) sr.status sr.body answer
  /-- `respondFile` on a file that is there, to its last chunk. -/
  | file {r₀ r t : Reactor} {id status : Nat} {loc : ReqLoc} {headers : List Header}
      {acts : List Act} {content answer : Bytes} {offset length : Int}
      {new : List (Bytes × Bool)} (fresh : Fresh r₀)
      (run : Reaches (stepOf (step env)) anyStep r₀ r) (running : r.running = true)
      (found : r.findReq id = some loc) (own : loc.connId = r.conn.id)
      (inside : offset.toNat ≤ content.length)
      (steps : exec (guarded (fun r a => steady content id r a = true) (step env)) acts
        (r.respondFile env id status headers (some content.length) offset length) = some t)
      (settled : Settled t) (open_ : t.conn.closing = false)
      (wrote_ : wrote t = wrote r ++ new) (bytes : bytesOf new = owed content r ++ answer) :
      Wires env false loc.isHead status (filePart content offset length) answer

theorem owed_settled {content : Bytes} {t : Reactor} (settled : Settled t) :
    owed content t = [] := by
  rw [owed, settled.1, settled.2]
  rfl

/-- What a settled run wrote is what was owed and put in. -/
theorem wire_of_total {content : Bytes} {r t : Reactor} {put answer : Bytes}
    {new : List (Bytes × Bool)} (settled : Settled t) (moved : total content t = total content r ++ put)
    (wrote_ : wrote t = wrote r ++ new) (bytes : bytesOf new = owed content r ++ answer) :
    answer = put := by
  rw [total, total, owed_settled settled, List.append_nil, wrote_, bytesOf_append, bytes] at moved
  simp only [List.append_assoc] at moved
  exact List.append_cancel_left (List.append_cancel_left moved)

section Paths

variable {env : Env} {r₀ r t : Reactor} (fresh : Fresh r₀)
  (run : Reaches (stepOf (step env)) anyStep r₀ r) {id status : Nat} {loc : ReqLoc}
  (running : r.running = true) (found : r.findReq id = some loc) (own : loc.connId = r.conn.id)
  {headers : List Header}

include fresh run running found own

/-- The head of a HEAD request's stream ends its answer. -/
theorem serves_startStream_head (isHead : loc.isHead = true) (status : Nat)
    (headers : List Header) :
    Serves [] id (wrote r) false (r.startStream env id status headers) ∧
      total [] (r.startStream env id status headers) = total [] r ++
        uvBuildStreamHead (r.date env) status headers loc.keepAlive
          env.cfg.keepAliveHeaderSecs := by
  have serves := serves_inFlight fresh run running found own []
  let e : Pending := ⟨loc.connId, ⟨.request id, .whole, uvBuildStreamHead (r.date env) status
    headers loc.keepAlive env.cfg.keepAliveHeaderSecs⟩, loc.keepAlive, true, none⟩
  have ends : Ends [] e := ⟨rfl, fun f file => (by cases file)⟩
  obtain ⟨served, moved⟩ := serves_pushLast (e := e) serves found rfl ends
  have push : r.startStream env id status headers = (r.pushWrite e).eraseReq id := by
    simp only [Reactor.startStream, running, not_true_eq_false, if_false, found, isHead, if_true]
    rfl
  -- the entry goes in before the request is erased, which makes no difference
  have swap : Alike id ((r.eraseReq id).pushWrite e) ((r.pushWrite e).eraseReq id) := by
    refine ⟨rfl, rfl, rfl, le_rfl, ?_, ?_, rfl, rfl, rfl⟩
    · rw [wrote_eraseReq, wrote_pushWrite, wrote_pushWrite, wrote_eraseReq]
    · exact (findReq_eraseReq (r.pushWrite e) id).trans (findReq_eraseReq r id).symm
  have same : total [] ((r.pushWrite e).eraseReq id) =
      total [] ((r.eraseReq id).pushWrite e) := swap.total
  rw [push, same, moved]
  exact ⟨swap.serves served, congrArg _ (List.append_nil _)⟩

/-- A stream puts its head on the wire, and its encoded body unless the request was HEAD. -/
theorem stream_answer {acts : List Act} {cs : List Bytes} {c answer : Bytes}
    {new : List (Bytes × Bool)} (calls : acts.filterMap callOf = script cs c)
    (steps : exec (guarded (fun r a => steady [] id r a = true) (step env)) acts
      (r.startStream env id status headers) = some t)
    (settled : Settled t) (open_ : t.conn.closing = false) (wrote_ : wrote t = wrote r ++ new)
    (bytes : bytesOf new = owed [] r ++ answer) :
    answer = uvBuildStreamHead (r.date env) status headers loc.keepAlive
      env.cfg.keepAliveHeaderSecs ++ if loc.isHead then [] else encoded cs c := by
  cases isHead : loc.isHead with
  | true =>
      obtain ⟨serves, headed⟩ := serves_startStream_head fresh run running found own isHead status
        headers
      obtain ⟨-, moved⟩ := serves_run serves steps open_
      rw [headed, if_neg Bool.false_ne_true, List.append_nil] at moved
      rw [if_pos rfl, List.append_nil]
      exact wire_of_total settled moved wrote_ bytes
  | false =>
      obtain ⟨serves, headed⟩ := serves_startStream fresh run running found own [] isHead status
        headers
      obtain ⟨-, moved⟩ := serves_run serves steps open_
      rw [headed, if_pos rfl, (sentBy_script calls).1, List.append_assoc] at moved
      rw [if_neg Bool.false_ne_true]
      exact wire_of_total settled moved wrote_ bytes

omit fresh run running found own in
theorem rangeLength_le (size offset : Nat) (length : Int) :
    Reactor.rangeLength size offset length ≤ size - offset := by
  rw [Reactor.rangeLength]
  split
  · omega
  · omega

omit fresh run running found own in
theorem filePart_length (content : Bytes) (offset length : Int) :
    (filePart content offset length).length =
      Reactor.rangeLength content.length offset.toNat length := by
  have within : Reactor.rangeLength content.length offset.toNat length ≤
      content.length - offset.toNat := rangeLength_le ..
  rw [filePart, List.length_take, List.length_drop]
  omega

/-- The entry of a file answer. -/
def fileEntry (env : Env) (r : Reactor) (id status : Nat) (headers : List Header) (loc : ReqLoc)
    (offset n : Nat) : Pending :=
  ⟨loc.connId, ⟨.request id, .head, uvBuildHead (r.date env) status headers n loc.keepAlive
    env.cfg.keepAliveHeaderSecs⟩, loc.keepAlive, false, some ⟨id, offset, n, loc.keepAlive⟩⟩

omit fresh run own in
/-- `respondFile` puts the head in with the open file, when there is something to send. -/
theorem respondFile_push {content : Bytes} {offset length : Int} {n : Nat}
    (inside : offset.toNat ≤ content.length)
    (part : Reactor.rangeLength content.length offset.toNat length = n)
    (sends_ : ¬ (loc.isHead = true ∨ n = 0)) (status : Nat) (headers : List Header) :
    r.respondFile env id status headers (some content.length) offset length =
      (r.eraseReq id).pushWrite (fileEntry env r id status headers loc offset.toNat n) := by
  have notPast : ¬ content.length < offset.toNat := not_lt.mpr inside
  simp only [Reactor.respondFile, running, not_true_eq_false, if_false, notPast, part, found,
    if_neg sends_]
  rfl

/-- `respondFile` on a file that is there ends the request: its head goes into the inbox, and its
part of the file unless the request was HEAD. -/
theorem serves_respondFile {content : Bytes} {offset : Int} (length : Int)
    (inside : offset.toNat ≤ content.length) (status : Nat) (headers : List Header) :
    Serves content id (wrote r) false
        (r.respondFile env id status headers (some content.length) offset length) ∧
      total content (r.respondFile env id status headers (some content.length) offset length) =
        total content r ++ (uvBuildHead (r.date env) status headers
          (Reactor.rangeLength content.length offset.toNat length) loc.keepAlive
          env.cfg.keepAliveHeaderSecs ++
            if loc.isHead then [] else filePart content offset length) := by
  have serves := serves_inFlight fresh run running found own content
  have part := filePart_length content offset length
  have notPast : ¬ content.length < offset.toNat := not_lt.mpr inside
  generalize hn : Reactor.rangeLength content.length offset.toNat length = n at part
  by_cases whole : loc.isHead = true ∨ n = 0
  · -- the head alone, or an empty part, goes out in one piece
    have m : (if loc.isHead then n else 0) = n := by
      cases isHead : loc.isHead with
      | true => rfl
      | false => exact (whole.resolve_left (by simp [isHead])).symm
    let e : Pending := ⟨loc.connId, ⟨.request id, .whole,
      uvBuildHead (r.date env) status headers n loc.keepAlive env.cfg.keepAliveHeaderSecs⟩,
      loc.keepAlive, true, none⟩
    have push : r.respondFile env id status headers (some content.length) offset length =
        (r.eraseReq id).pushWrite e := by
      simp only [Reactor.respondFile, running, not_true_eq_false, if_false, notPast, hn, found,
        if_pos whole, Reactor.respondWith, ite_self, List.append_nil, m]
      rfl
    have ends : Ends content e := ⟨rfl, fun f file => (by cases file)⟩
    obtain ⟨served, moved⟩ := serves_pushLast (e := e) serves found rfl ends
    have owes_ : owes content e = uvBuildHead (r.date env) status headers n loc.keepAlive
        env.cfg.keepAliveHeaderSecs := List.append_nil _
    have nothing : (if loc.isHead then [] else filePart content offset length) = [] := by
      cases isHead : loc.isHead with
      | true => rfl
      | false =>
          have none_ : n = 0 := whole.resolve_left (by simp [isHead])
          rw [if_neg Bool.false_ne_true]
          exact List.length_eq_zero_iff.mp (part.trans none_)
    rw [push, moved, owes_, nothing, List.append_nil]
    exact ⟨served, rfl⟩
  · obtain ⟨notHead, some_⟩ := not_or.mp whole
    have isHead : loc.isHead = false := by simpa using notHead
    let f : FileSend := ⟨id, offset.toNat, n, loc.keepAlive⟩
    let e : Pending := fileEntry env r id status headers loc offset.toNat n
    have push : r.respondFile env id status headers (some content.length) offset length =
        (r.eraseReq id).pushWrite e := respondFile_push running found inside hn whole status headers
    have within : n ≤ content.length - offset.toNat := hn ▸ rangeLength_le ..
    have ends : Ends content e := by
      refine ⟨rfl, fun f' file => ?_⟩
      obtain rfl := Option.some.inj file
      exact ⟨rfl, Nat.pos_of_ne_zero some_, show offset.toNat + n ≤ content.length by omega⟩
    obtain ⟨served, moved⟩ := serves_pushLast (e := e) serves found rfl ends
    have range : rangeOf content f = filePart content offset length := by
      rw [filePart, hn]
      rfl
    have owes_ : owes content e = uvBuildHead (r.date env) status headers n loc.keepAlive
        env.cfg.keepAliveHeaderSecs ++ filePart content offset length := by
      rw [← range]
      rfl
    rw [push, moved, owes_, isHead, if_neg Bool.false_ne_true]
    exact ⟨served, rfl⟩

/-- A file answer puts its head on the wire, and its part of the file unless the request was
HEAD. -/
theorem file_answer {acts : List Act} {content answer : Bytes} {offset length : Int}
    {new : List (Bytes × Bool)} (inside : offset.toNat ≤ content.length)
    (steps : exec (guarded (fun r a => steady content id r a = true) (step env)) acts
      (r.respondFile env id status headers (some content.length) offset length) = some t)
    (settled : Settled t) (open_ : t.conn.closing = false) (wrote_ : wrote t = wrote r ++ new)
    (bytes : bytesOf new = owed content r ++ answer) :
    ∃ n, (loc.isHead = false → n = (filePart content offset length).length) ∧
      answer = uvBuildHead (r.date env) status headers n loc.keepAlive
        env.cfg.keepAliveHeaderSecs ++
          if loc.isHead then [] else filePart content offset length := by
  obtain ⟨served, moved⟩ := serves_respondFile fresh run running found own length inside status
    headers
  obtain ⟨-, ended⟩ := serves_run served steps open_
  rw [moved, if_neg Bool.false_ne_true, List.append_nil] at ended
  exact ⟨_, fun _ => (filePart_length content offset length).symm,
    wire_of_total settled ended wrote_ bytes⟩

end Paths

/-- A static answer is its head, and its body unless the request was HEAD. -/
theorem fixed_answer (env : Env) {r : Reactor} {q : Request} (ka : Bool) (body : Bytes)
    {route : RouteEntry} {params : List RouteParam} {sr : StaticResponse}
    (http : r.conn.ws = false) (matched : q.route = some (route, params))
    (plain : route.isWebSocket = false) (noUpgrade : uvIsWebSocketUpgrade q.head = false)
    (static : route.staticResponse = some sr) :
    wrote (r.answerRequest env q ka body).1 = wrote r ++
      [(uvBuildHead (r.date env) sr.status sr.headers sr.body.length
          (ka && decide (body = [])) env.cfg.keepAliveHeaderSecs ++
        if decide (q.head.method = .head) then [] else sr.body, true)] := by
  simp only [Reactor.answerRequest, matched, plain, noUpgrade, static, Bool.false_eq_true, if_false]
  rw [writeAnswer_finish env http, wrote_startAnswer]
  simp [payloadBytes]

/-- What one of the paths puts on the wire is exactly one response when the request is HEAD,
the status has content, or an announced content is empty. -/
theorem wires_framed_iff (env : Env) (gmtime : Nat → Tm) {streams isHead : Bool} {status : Nat}
    {content answer : Bytes} (low : 200 ≤ status) (high : status ≤ 599)
    (wires : Wires (dated env gmtime) streams isHead status content answer) :
    OneAnswer isHead status content answer ↔
      isHead = true ∨ bodyless status = false ∨ streams = false ∧ content = [] := by
  cases wires with
  | @stream r₀ r t id status loc headers acts cs c answer new fresh run running found own calls
      steps settled open_ wrote_ bytes =>
      have shape := stream_answer fresh run running found own calls steps settled open_ wrote_ bytes
      rw [shape]
      have iff := stream_framed_iff (gmtime r.clock) low high headers loc.keepAlive
        (dated env gmtime).cfg.keepAliveHeaderSecs loc.isHead cs c
      simp only [Bool.true_eq_false, false_and, or_false]
      exact iff
  | @fixed r q ka body answer route params sr new http matched plain noUpgrade static wrote_
      bytes =>
      have shape := fixed_answer (dated env gmtime) ka body http matched plain noUpgrade static
      obtain rfl := List.append_cancel_left (wrote_.symm.trans shape)
      rw [bytesOf_one] at bytes
      rw [← bytes]
      simp only [true_and]
      exact oneShot_framed_iff (gmtime r.clock) low high sr.headers (ka && decide (body = []))
        (dated env gmtime).cfg.keepAliveHeaderSecs fun _ => rfl
  | @file r₀ r t id status loc headers acts content answer offset length new fresh run running
      found own inside steps settled open_ wrote_ bytes =>
      obtain ⟨n, length_, shape⟩ := file_answer fresh run running found own inside steps settled
        open_ wrote_ bytes
      rw [shape]
      simp only [true_and]
      exact oneShot_framed_iff (gmtime r.clock) low high headers loc.keepAlive
        (dated env gmtime).cfg.keepAliveHeaderSecs length_

/-! ### Runs of the three paths -/

def epoch : Tm := ⟨1970, 0, 1, 0, 0, 0, 4⟩

/-- The server of the sample runs, with its clock at the epoch. -/
def datedEnv : Env := dated sampleEnv fun _ => epoch

/-- The state with a request for `/` in flight. -/
def asking : Reactor := (exec (step datedEnv) (asked "GET") sampleConn).getD sampleConn

/-- The end of a stream, of one chunk. -/
def streamEnd (status : Nat) : Reactor :=
  (exec (guarded (fun r a => steady [] 1 r a = true) (step datedEnv)) (oneChunk (ascii "hi"))
    (asking.startStream datedEnv 1 status [])).getD asking

/-- The end of a file answer: the head's landing reads the file. -/
def fileEnd (status : Nat) : Reactor :=
  (exec (guarded (fun r a => steady (ascii "hi") 1 r a = true) (step datedEnv))
    [.async, .written true (ascii "hi")]
    (asking.respondFile datedEnv 1 status [] (some 2) 0 (-1))).getD asking

/-- A request that matched a static route with this status and body. -/
def fixedRequest (status : Nat) (body : Bytes) : Request where
  head := { method := .get, version := ascii "HTTP/1.1", ok := true }
  path := [47]
  query := []
  chunked := false
  route := some ({ staticResponse := some ⟨status, [], body⟩ }, [])

/-- The bytes of a run behind those of another. -/
def newBytes (r t : Reactor) : Bytes := bytesOf ((wrote t).drop (wrote r).length)

example : newBytes sampleConn asking = [] := by
  decide +kernel

theorem asking_get : exec (step datedEnv) (asked "GET") sampleConn = some asking ∧
    asking.running = true ∧ asking.findReq 1 = some ⟨0, false, true⟩ ∧
    (ReqLoc.mk 0 false true).connId = asking.conn.id ∧ owed (ascii "hi") asking = [] ∧
    owed [] asking = [] := by
  decide +kernel

theorem asking_runs : Reaches (stepOf (step datedEnv)) anyStep sampleConn asking :=
  exec_reaches asking_get.1

theorem wires_fileEnd {status : Nat} (ends : exec (guarded (fun r a =>
      steady (ascii "hi") 1 r a = true) (step datedEnv)) [.async, .written true (ascii "hi")]
      (asking.respondFile datedEnv 1 status [] (some 2) 0 (-1)) = some (fileEnd status) ∧
        Settled (fileEnd status) ∧ (fileEnd status).conn.closing = false ∧
        wrote (fileEnd status) =
          wrote asking ++ (wrote (fileEnd status)).drop (wrote asking).length) :
    Wires datedEnv false false status (filePart (ascii "hi") 0 (-1))
      (newBytes asking (fileEnd status)) := by
  obtain ⟨steps, settled, open_, written⟩ := ends
  obtain ⟨-, running, found, own, owedNone, -⟩ := asking_get
  exact .file sampleConn_fresh asking_runs running found own (by decide) steps settled open_ written
    (by rw [owedNone, List.nil_append, newBytes])

theorem wires_streamEnd {status : Nat} (ends : exec (guarded (fun r a =>
      steady [] 1 r a = true) (step datedEnv)) (oneChunk (ascii "hi"))
      (asking.startStream datedEnv 1 status []) = some (streamEnd status) ∧
        Settled (streamEnd status) ∧ (streamEnd status).conn.closing = false ∧
        wrote (streamEnd status) =
          wrote asking ++ (wrote (streamEnd status)).drop (wrote asking).length) :
    Wires datedEnv true false status ([] ++ [ascii "hi"]).flatten
      (newBytes asking (streamEnd status)) := by
  obtain ⟨steps, settled, open_, written⟩ := ends
  obtain ⟨-, running, found, own, -, owedNone⟩ := asking_get
  exact .stream sampleConn_fresh asking_runs running found own rfl steps settled open_ written
    (by rw [owedNone, List.nil_append, newBytes])

example : (readResponse false (newBytes asking (fileEnd 200))).map Prod.snd = some [] := by
  decide +kernel

/-- A file answer with 206. -/
theorem wires_framed_file :
    OneAnswer false 206 (filePart (ascii "hi") 0 (-1)) (newBytes asking (fileEnd 206)) ↔
      false = true ∨ bodyless 206 = false ∨
        false = false ∧ filePart (ascii "hi") 0 (-1) = [] :=
  wires_framed_iff sampleEnv (fun _ => epoch) (by decide) (by decide)
    (wires_fileEnd (by decide +kernel))

/-- What a static route with this status and body writes. -/
def fixedAnswer (status : Nat) (body : Bytes) : Bytes :=
  uvBuildHead (uvDateHeader epoch) status [] body.length true (some 5) ++ body

theorem wires_fixed (status : Nat) (body : Bytes) :
    Wires datedEnv false false status body (fixedAnswer status body) := by
  have noUpgrade : uvIsWebSocketUpgrade (fixedRequest status body).head = false := rfl
  have answers := fixed_answer datedEnv (r := sampleConn) (q := fixedRequest status body) true []
    rfl rfl rfl noUpgrade rfl
  exact .fixed (r := sampleConn) (q := fixedRequest status body) rfl rfl rfl noUpgrade rfl answers
    (bytesOf_one _ _)

/-- What is no response on its own, or leaves something, is not one answer. -/
theorem not_oneAnswer {isHead : Bool} {status : Nat} {content answer : Bytes}
    (left : (readResponse isHead answer).map Prod.snd ≠ some []) :
    ¬ OneAnswer isHead status content answer := by
  rintro ⟨fields, one⟩
  rw [one] at left
  exact left rfl

/-- A 204 with content: a stream, a static route and a file each leave bytes behind their
head. -/
theorem bodyless_left_over :
    (∃ answer, Wires datedEnv true false 204 ([] ++ [ascii "hi"]).flatten answer ∧
      ¬ OneAnswer false 204 ([] ++ [ascii "hi"]).flatten answer) ∧
    (∃ answer, Wires datedEnv false false 204 (ascii "hi") answer ∧
      ¬ OneAnswer false 204 (ascii "hi") answer) ∧
    ∃ answer, Wires datedEnv false false 204 (filePart (ascii "hi") 0 (-1)) answer ∧
      ¬ OneAnswer false 204 (filePart (ascii "hi") 0 (-1)) answer := by
  refine ⟨⟨_, wires_streamEnd (by decide +kernel), ?_⟩, ⟨_, wires_fixed 204 (ascii "hi"), ?_⟩,
    ⟨_, wires_fileEnd (by decide +kernel), ?_⟩⟩
  · exact not_oneAnswer (by decide +kernel)
  · exact not_oneAnswer (by decide +kernel)
  · exact not_oneAnswer (by decide +kernel)

end NitroServer.Answer
