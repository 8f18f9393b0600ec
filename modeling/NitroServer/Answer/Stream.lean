/-
A streamed answer from its calls to the wire.

`sendStreamChunk` encodes each call on its own, `onAsync` merges what it finds in a row. The
bytes that reach the connection behind the stream's head are one chunked body: the chunks in
order and the last one (`stream_wire`), which `decodeChunked` reads back whole
(`stream_decodes`), and exactly the last write ends the answer.

Two kinds of calls are left out: those of a HEAD request, whose answer is its head alone, and
chunks of 2^60 bytes or more, whose sizes take a sixteenth digit that `uvChunkSize` refuses.
-/

import NitroServer.Answer.OneShot
import NitroServer.Answer.Delivery
import NitroServer.Chunked.Agree

namespace NitroServer.Answer

open NitroServer.Engine NitroServer.Lib NitroServer.Lib.HttpReader NitroServer.Chunked

/-! ### Sizes -/

theorem hexDigit_eq (b : UInt8) : hexDigit b = digit 16 b := by
  have all : ∀ n < 256, hexDigit (UInt8.ofNat n) = digit 16 (UInt8.ofNat n) := by
    decide +kernel
  have at_ := all b.toNat b.toNat_lt
  rwa [UInt8.ofNat_toNat] at at_

/-- The digit loop reads a number of digits. -/
theorem chunkDigits_eq {s : Bytes} {size m : Nat} (k : Nat)
    (digits : readDigits 16 s size = some m) : chunkDigits s size k = (m, k + s.length, []) := by
  induction s generalizing size k with
  | nil =>
      obtain rfl := Option.some.inj digits
      rfl
  | cons b s ih =>
      rw [readDigits] at digits
      obtain ⟨d, here, rest⟩ := Option.bind_eq_some_iff.mp digits
      simp only [chunkDigits, hexDigit_eq, here, ih (k + 1) rest, List.length_cons]
      congr 2
      omega

theorem hexLower_eq (n : Nat) : Reactor.hexLower n = number 16 n := rfl

theorem hexLower_length {n k : Nat} (pos : 0 < k) :
    (Reactor.hexLower n).length ≤ k ↔ n < 16 ^ k := by
  rw [hexLower_eq, number, lit_ofList, List.length_map]
  exact Nat.length_toDigits_le_iff (by omega) pos

/-- A size is read back when it has no more than fifteen digits. -/
theorem uvChunkSize_hexLower (n : Nat) :
    uvChunkSize (Reactor.hexLower n) = if n < 16 ^ 15 then some n else none := by
  have digits := readDigits_number (by omega : 1 < 16) le_rfl n
  rw [← hexLower_eq] at digits
  have scan := chunkDigits_eq 0 digits
  rw [Nat.zero_add] at scan
  have full : (Reactor.hexLower n).length ≠ 0 := by
    rw [Ne, List.length_eq_zero_iff, hexLower_eq]
    exact number_ne_nil (by omega) n
  have bound := hexLower_length (n := n) (k := 15) (by omega)
  rw [uvChunkSize, scan]
  by_cases small : n < 16 ^ 15
  · have short := not_lt.mpr (bound.mpr small)
    simp only [if_neg short, if_neg full, if_true, if_pos small]
  · have long : 15 < (Reactor.hexLower n).length := not_le.mp fun le => small (bound.mp le)
    simp only [if_pos long, if_neg small]

/-! ### The encoded body -/

theorem chunkFrame_more {c : Bytes} (full : c ≠ []) : Reactor.chunkFrame c false = chunk c := by
  rw [Reactor.chunkFrame, if_neg full, hexLower_eq]
  exact List.append_nil _

theorem chunkFrame_last (c : Bytes) :
    Reactor.chunkFrame c true = Reactor.chunkFrame c false ++ lastChunk := by
  have last : ascii "0\r\n\r\n" = lastChunk := by
    rw [lastChunk, ascii_ofList, lit_ofList]
    decide +kernel
  simp only [Reactor.chunkFrame, Bool.false_eq_true, if_false, if_true, List.append_nil, last]

/-- What the calls of a stream put in behind its head. -/
def encoded (cs : List Bytes) (c : Bytes) : Bytes :=
  (cs.flatMap fun c => Reactor.chunkFrame c false) ++ Reactor.chunkFrame c true

/-- It is the chunks that have something in them, and the last chunk. -/
theorem encoded_eq (cs : List Bytes) (c : Bytes) :
    encoded cs c = ((cs ++ [c]).filter (· ≠ [])).flatMap chunk ++ lastChunk := by
  have frames : ∀ ds : List Bytes, (ds.flatMap fun c => Reactor.chunkFrame c false) =
      (ds.filter (· ≠ [])).flatMap chunk := by
    intro ds
    induction ds with
    | nil => rfl
    | cons d ds ih =>
        rw [List.flatMap_cons, ih]
        by_cases none_ : d = []
        · rw [none_, List.filter_cons_of_neg (by simp)]
          rfl
        · rw [List.filter_cons_of_pos (by simpa using none_), List.flatMap_cons,
            chunkFrame_more none_]
  rw [encoded, chunkFrame_last, ← List.append_assoc, ← frames, List.flatMap_append,
    List.flatMap_singleton]

example : encoded [ascii "ab", []] (ascii "c") = ascii "2\r\nab\r\n1\r\nc\r\n0\r\n\r\n" := by
  decide +kernel

theorem flatten_filter (ds : List Bytes) : (ds.filter (· ≠ [])).flatten = ds.flatten := by
  induction ds with
  | nil => rfl
  | cons d ds ih =>
      by_cases none_ : d = []
      · rw [none_, List.filter_cons_of_neg (by simp), ih]
        rfl
      · rw [List.filter_cons_of_pos (by simpa using none_), List.flatten_cons, ih,
          List.flatten_cons]

theorem noCrlf_text {s : Bytes} (text : Text s) : NoCrlf s := by
  induction s with
  | nil => rfl
  | cons b s ih =>
      have rest := ih fun c mem => text c (List.mem_cons_of_mem b mem)
      have here : ¬ crlf <+: b :: s := by
        intro start
        have same : b = 13 := by
          rw [crlf, List.cons_prefix_cons] at start
          exact start.1.symm
        have visible := text b List.mem_cons_self
        rw [same] at visible
        exact absurd visible (by decide)
      rw [NoCrlf, findSub, if_neg here, rest]
      rfl

theorem noCrlf_hexLower (n : Nat) : NoCrlf (Reactor.hexLower n) :=
  noCrlf_text fun b mem =>
    (digit_plain le_rfl (number_digits (by omega) le_rfl n b (hexLower_eq n ▸ mem))).1

/-- Written chunks are a whole body. -/
theorem reads_chunks {M t : Nat} {ds : List Bytes} (full : ∀ d ∈ ds, d ≠ [])
    (small : ∀ d ∈ ds, d.length < 16 ^ 15) (room : t + ds.flatten.length ≤ M) :
    Reads M t (ds.flatMap chunk ++ lastChunk) (.whole ds.flatten 0 []) := by
  induction ds generalizing t with
  | nil =>
      have zero : lastChunk = Reactor.hexLower 0 ++ crlf ++ (crlf ++ []) := by decide +kernel
      have size : uvChunkSize (Reactor.hexLower 0) = some 0 := by
        rw [uvChunkSize_hexLower]
        rfl
      rw [List.flatMap_nil, List.nil_append, zero]
      exact .last (noCrlf_hexLower 0) size .blank
  | cons d ds ih =>
      rw [List.flatten_cons, List.length_append] at room
      have size : uvChunkSize (Reactor.hexLower d.length) = some d.length := by
        rw [uvChunkSize_hexLower, if_pos (small d List.mem_cons_self)]
      have rest := ih (t := t + d.length) (fun e mem => full e (List.mem_cons_of_mem d mem))
        (fun e mem => small e (List.mem_cons_of_mem d mem)) (by omega)
      have shape : (d :: ds).flatMap chunk ++ lastChunk =
          Reactor.hexLower d.length ++ crlf ++ (d ++ (crlf ++ (ds.flatMap chunk ++ lastChunk))) := by
        rw [List.flatMap_cons, chunk, hexLower_eq]
        simp only [crlf, List.append_assoc]
      rw [shape]
      exact .chunk (noCrlf_hexLower _) size (full d List.mem_cons_self) (by omega) rest

/-- The buffered decoder takes the encoded body whole. -/
theorem decode_encoded (cs : List Bytes) (c : Bytes) {cap : Nat}
    (small : ∀ d ∈ cs ++ [c], d.length < 16 ^ 15) (room : (cs ++ [c]).flatten.length ≤ cap) :
    decodeChunked (encoded cs c) 0 cap =
      .complete (cs ++ [c]).flatten (encoded cs c).length := by
  have full : ∀ d ∈ (cs ++ [c]).filter (· ≠ []), d ≠ [] := by
    intro d mem
    simpa using (List.mem_filter.mp mem).2
  have small' : ∀ d ∈ (cs ++ [c]).filter (· ≠ []), d.length < 16 ^ 15 :=
    fun d mem => small d (List.mem_filter.mp mem).1
  have reads := reads_chunks (M := cap) (t := 0) full small' (by rw [flatten_filter]; omega)
  rw [← encoded_eq, flatten_filter] at reads
  exact (decodeChunked_iff reads _ _).mpr ⟨_, 0, [], rfl, Nat.zero_le _, rfl, rfl⟩

/-! ### From the calls to the wire -/

/-- The chunk calls of a run, in order. -/
def callOf : Act → Option (Bytes × Bool)
  | .sendStreamChunk _ c last => some (c, last)
  | _ => none

/-- The calls that send some chunks and then one that ends the stream. -/
def script (cs : List Bytes) (c : Bytes) : List (Bytes × Bool) :=
  cs.map (fun c => (c, false)) ++ [(c, true)]

theorem sends_other {a : Act} (other : callOf a = none) : sends a = [] ∧ ends a = false := by
  cases a <;> first | exact ⟨rfl, rfl⟩ | cases other

/-- A scripted run puts in the encoded body, and ends the answer. -/
theorem sentBy_script {acts : List Act} {cs : List Bytes} {c : Bytes}
    (calls : acts.filterMap callOf = script cs c) :
    sentBy acts = encoded cs c ∧ acts.all (fun a => !ends a) = false := by
  induction acts generalizing cs with
  | nil => cases cs <;> cases calls
  | cons a acts ih =>
      cases call : callOf a with
      | none =>
          rw [List.filterMap_cons_none call] at calls
          obtain ⟨sent_, ended⟩ := ih calls
          obtain ⟨nothing, noEnd⟩ := sends_other call
          rw [sentBy, nothing, noEnd, List.all_cons, ended, Bool.and_false]
          exact ⟨sent_, rfl⟩
      | some call' =>
          cases a with
          | sendStreamChunk i d last =>
              rw [List.filterMap_cons_some call] at calls
              obtain rfl := Option.some.inj call
              cases cs with
              | nil =>
                  obtain ⟨same, -⟩ := List.cons.inj calls
                  obtain ⟨rfl, rfl⟩ := Prod.mk.inj same
                  exact ⟨List.append_nil _, rfl⟩
              | cons d' cs =>
                  obtain ⟨same, rest⟩ := List.cons.inj calls
                  obtain ⟨rfl, rfl⟩ := Prod.mk.inj same
                  obtain ⟨sent_, ended⟩ := ih rest
                  have frame : sends (.sendStreamChunk i d false) =
                      Reactor.chunkFrame d false := rfl
                  have noEnd : ends (.sendStreamChunk i d false) = false := rfl
                  rw [sentBy, frame, noEnd, List.all_cons, ended, Bool.and_false]
                  refine ⟨?_, rfl⟩
                  rw [if_neg Bool.false_ne_true, sent_, encoded, encoded, List.flatMap_cons,
                    List.append_assoc]
          | _ => cases call

section Reached

variable {env : Env} {r₀ r t : Reactor} (fresh : Fresh r₀)
  (run : Reaches (stepOf (step env)) anyStep r₀ r) {id : Nat} {loc : ReqLoc}
  (running : r.running = true) (found : r.findReq id = some loc) (own : loc.connId = r.conn.id)

include fresh run running found own

/-- A request that a reachable connection has in flight. -/
theorem serves_inFlight (content : Bytes) : Serves content id (wrote r) true r := by
  obtain ⟨wf, unended⟩ := Unended.reached fresh run
  have mine := find_of_own found own
  obtain ⟨one, -, idle, -, -, http⟩ := wf.sound.of_find mine
  have pending : r.lane.reqs ≠ [] := List.ne_nil_of_length_pos (by omega)
  have live : r.gone = false := by
    cases left : r.gone with
    | false => rfl
    | true => exact absurd (unended.left left).2 pending
  have used : id < r.nextId := by
    obtain ⟨e, he, -⟩ := Option.map_eq_some_iff.mp mine
    have named : e.1 = id := by simpa using List.find?_some he
    have key : id ∈ r.lane.reqs.map Prod.fst :=
      List.mem_map.mpr ⟨e, List.mem_of_find?_eq_some he, named⟩
    exact wf.own id (Lane.mem_ids.mpr (Or.inl key))
  have none_ : wrote r = wrote r ++ [] := (List.append_nil _).symm
  exact ⟨running, live, http, used, [], none_, .answering found own idle (unended.queue pending)
    fun w mem => (by cases mem)⟩

/-- The stream's head joins what is put in. -/
theorem serves_startStream (content : Bytes) (notHead : loc.isHead = false) (status : Nat)
    (headers : List Header) :
    Serves content id (wrote r) true (r.startStream env id status headers) ∧
      total content (r.startStream env id status headers) = total content r ++
        uvBuildStreamHead (r.date env) status headers loc.keepAlive
          env.cfg.keepAliveHeaderSecs := by
  have serves := serves_inFlight fresh run running found own content
  have push : r.startStream env id status headers = r.pushWrite ⟨loc.connId,
      ⟨.request id, .head, uvBuildStreamHead (r.date env) status headers loc.keepAlive
        env.cfg.keepAliveHeaderSecs⟩, loc.keepAlive, false, none⟩ := by
    simp only [Reactor.startStream, running, not_true_eq_false, if_false, found, notHead,
      Bool.false_eq_true]
  obtain ⟨served, moved⟩ := serves_push (e := ⟨loc.connId, ⟨.request id, .head,
    uvBuildStreamHead (r.date env) status headers loc.keepAlive env.cfg.keepAliveHeaderSecs⟩,
    loc.keepAlive, false, none⟩) serves found rfl rfl
  rw [push]
  refine ⟨served, moved.trans ?_⟩
  rw [owes]
  exact congrArg _ (List.append_nil _)

/-- What a stream's calls put in reaches the wire behind its head, and the last write is the
only one that ends the answer. -/
theorem stream_wire (notHead : loc.isHead = false) (status : Nat) (headers : List Header)
    {acts : List Act} {cs : List Bytes} {c : Bytes}
    (calls : acts.filterMap callOf = script cs c)
    (stream : exec (guarded (fun r a => steady [] id r a = true) (step env)) acts
      (r.startStream env id status headers) = some t)
    (drained : t.ownQueue = []) (open_ : t.conn.closing = false) :
    ∃ before last, wrote t = wrote r ++ (before ++ [(last, true)]) ∧
      (∀ w ∈ before, w.2 = false) ∧
      bytesOf (before ++ [(last, true)]) = owed [] r ++
        (uvBuildStreamHead (r.date env) status headers loc.keepAlive
          env.cfg.keepAliveHeaderSecs ++ encoded cs c) := by
  obtain ⟨serves, headed⟩ := serves_startStream fresh run running found own [] notHead status
    headers
  obtain ⟨done, moved⟩ := serves_run serves stream open_
  obtain ⟨sent_, ended⟩ := sentBy_script calls
  rw [ended] at done
  rw [headed, if_pos rfl, sent_, total, total] at moved
  have nothing : owed [] t = [] := by
    rw [owed, drained, List.flatMap_nil, List.append_nil]
    cases t.conn.file with
    | none => rfl
    | some f => simp [rangeOf]
  rw [nothing, List.append_nil] at moved
  obtain ⟨new, written, stage⟩ := done.stage
  cases stage with
  | queued gone idle queue =>
      rw [drained] at queue
      exact absurd queue.symm (List.append_ne_nil_of_right_ne_nil _ (List.cons_ne_nil _ _))
  | sending gone file range =>
      -- there is no file in a stream
      have pos := range.1
      have fits := range.2
      rw [List.length_nil] at fits
      omega
  | @done before last gone idle queue new_ open_ =>
      subst new_
      refine ⟨before, last, written, open_, ?_⟩
      rw [written, bytesOf_append] at moved
      simp only [List.append_assoc] at moved
      exact List.append_cancel_left moved

end Reached

/-! ### The round trip -/

/-- The body of a stream is read back whole, wherever the batches are cut and whatever else
is in them, and exactly the last write ends the answer. -/
theorem stream_decodes (env : Env) {r₀ r t : Reactor} (fresh : Fresh r₀)
    (run : Reaches (stepOf (step env)) anyStep r₀ r) {id : Nat} {loc : ReqLoc}
    (running : r.running = true) (found : r.findReq id = some loc) (own : loc.connId = r.conn.id)
    (notHead : loc.isHead = false) (status : Nat) (headers : List Header) {acts : List Act}
    {cs : List Bytes} {c : Bytes} (small : ∀ d ∈ cs ++ [c], d.length < 2 ^ 60)
    (calls : acts.filterMap callOf = script cs c)
    (stream : exec (guarded (fun r a => steady [] id r a = true) (step env)) acts
      (r.startStream env id status headers) = some t)
    (drained : t.ownQueue = []) (open_ : t.conn.closing = false) :
    ∃ before last body, wrote t = wrote r ++ (before ++ [(last, true)]) ∧
      (∀ w ∈ before, w.2 = false) ∧
      bytesOf (before ++ [(last, true)]) = owed [] r ++
        (uvBuildStreamHead (r.date env) status headers loc.keepAlive
          env.cfg.keepAliveHeaderSecs ++ body) ∧
      ∀ cap, (cs ++ [c]).flatten.length ≤ cap →
        decodeChunked body 0 cap = .complete (cs ++ [c]).flatten body.length := by
  obtain ⟨before, last, written, none_, bytes⟩ :=
    stream_wire fresh run running found own notHead status headers calls stream drained open_
  have same : (2 : Nat) ^ 60 = 16 ^ 15 := by decide
  rw [same] at small
  exact ⟨before, last, encoded cs c, written, none_, bytes,
    fun cap room => decode_encoded cs c small room⟩

/-- A request for `/` is dispatched. -/
def asked (method : String) : List Act :=
  [.attach (some 0), .read (ascii method ++ ascii " / HTTP/1.1\r\nHost: x\r\n\r\n")]

def inFlight (method : String) : Reactor :=
  (exec (step sampleEnv) (asked method) sampleConn).getD sampleConn

theorem inFlight_runs (method : String)
    (answers : exec (step sampleEnv) (asked method) sampleConn = some (inFlight method)) :
    Reaches (stepOf (step sampleEnv)) anyStep sampleConn (inFlight method) := exec_reaches answers

theorem inFlight_get : exec (step sampleEnv) (asked "GET") sampleConn = some (inFlight "GET") ∧
    (inFlight "GET").running = true ∧ (inFlight "GET").findReq 1 = some ⟨0, false, true⟩ ∧
    (ReqLoc.mk 0 false true).connId = (inFlight "GET").conn.id ∧ (inFlight "GET").gone = false ∧
    (inFlight "GET").conn.closing = false ∧ (inFlight "GET").conn.ws = false ∧
    (inFlight "GET").queue = [] ∧ owed [] (inFlight "GET") = [] := by
  decide +kernel

/-- Two chunks and an empty one, in two batches, with another connection's answer between. -/
def twoBatches : List Act :=
  [.sendStreamChunk 1 (ascii "ab") false, .async,
    .otherPush ⟨9, ⟨.engine, .whole, []⟩, true, true, none⟩, .sendStreamChunk 1 [] false,
    .sendStreamChunk 1 (ascii "c") true, .async]

/-- The state after a stream's run. -/
def streamed (method : String) (acts : List Act) : Reactor :=
  (exec (guarded (fun r a => steady [] 1 r a = true) (step sampleEnv)) acts
    ((inFlight method).startStream sampleEnv 1 200 [])).getD sampleConn

theorem twoBatches_get : (∀ d ∈ [ascii "ab", []] ++ [ascii "c"], d.length < 2 ^ 60) ∧
    twoBatches.filterMap callOf = script [ascii "ab", []] (ascii "c") ∧
    exec (guarded (fun r a => steady [] 1 r a = true) (step sampleEnv)) twoBatches
      ((inFlight "GET").startStream sampleEnv 1 200 []) = some (streamed "GET" twoBatches) ∧
    (streamed "GET" twoBatches).ownQueue = [] ∧
    (streamed "GET" twoBatches).conn.closing = false := by
  decide +kernel

theorem twoBatches_head : exec (step sampleEnv) (asked "HEAD") sampleConn = some (inFlight "HEAD") ∧
    (inFlight "HEAD").findReq 1 = some ⟨0, true, true⟩ ∧
    exec (guarded (fun r a => steady [] 1 r a = true) (step sampleEnv)) twoBatches
      ((inFlight "HEAD").startStream sampleEnv 1 200 []) = some (streamed "HEAD" twoBatches) ∧
    (streamed "HEAD" twoBatches).ownQueue = [] ∧
    (streamed "HEAD" twoBatches).conn.closing = false ∧
    wrote (streamed "HEAD" twoBatches) = wrote (inFlight "HEAD") ++
      [(uvBuildStreamHead [] 200 [] true (some 5), true)] := by
  decide +kernel

theorem stream_decodes_batches :
    ∃ before last body,
      wrote (streamed "GET" twoBatches) =
        wrote (inFlight "GET") ++ (before ++ [(last, true)]) ∧
      (∀ w ∈ before, w.2 = false) ∧
      bytesOf (before ++ [(last, true)]) = owed [] (inFlight "GET") ++
        (uvBuildStreamHead [] 200 [] true (some 5) ++ body) ∧
      ∀ cap, ([ascii "ab", []] ++ [ascii "c"]).flatten.length ≤ cap →
        decodeChunked body 0 cap =
          .complete ([ascii "ab", []] ++ [ascii "c"]).flatten body.length :=
  have ⟨reached, running, found, own, _, _, _, _, _⟩ := inFlight_get
  have ⟨smallChunks, calls, runs, drained, open_⟩ := twoBatches_get
  stream_decodes sampleEnv sampleConn_fresh (inFlight_runs "GET" reached) running found own rfl 200
    [] smallChunks calls runs drained open_

/-- A chunk whose size takes sixteen digits is no chunk to the decoder. -/
theorem decode_huge {c : Bytes} (huge : 16 ^ 15 ≤ c.length) (cap : Nat) :
    decodeChunked (encoded [] c) 0 cap = .malformed := by
  have full : c ≠ [] := by
    rintro rfl
    exact absurd huge (by decide)
  have size : uvChunkSize (Reactor.hexLower c.length) = none := by
    rw [uvChunkSize_hexLower, if_neg (not_lt.mpr huge)]
  have shape : encoded [] c = Reactor.hexLower c.length ++ crlf ++ (c ++ crlf ++ lastChunk) := by
    rw [encoded, chunkFrame_last, chunkFrame_more full, chunk, hexLower_eq]
    simp only [List.flatMap_nil, List.nil_append, crlf, List.append_assoc]
  rw [decodeChunked, shape]
  exact decode_badSize (noCrlf_hexLower _) rfl size

/-- A stream of one chunk, in one batch. -/
def oneChunk (c : Bytes) : List Act := [.sendStreamChunk 1 c true, .async]

theorem oneChunk_runs {r : Reactor} {loc : ReqLoc} {c : Bytes} (running : r.running = true)
    (found : r.findReq 1 = some loc) (own : loc.connId = r.conn.id) (live : r.gone = false)
    (open_ : r.conn.closing = false) (http : r.conn.ws = false) (queue : r.queue = [])
    (notHead : loc.isHead = false) :
    ∃ t, exec (guarded (fun r a => steady [] 1 r a = true) (step sampleEnv)) (oneChunk c)
        (r.startStream sampleEnv 1 200 []) = some t ∧
      t.ownQueue = [] ∧ t.conn.closing = false := by
  let e : Pending := ⟨loc.connId, ⟨.request 1, .head, uvBuildStreamHead (r.date sampleEnv) 200 []
    loc.keepAlive sampleEnv.cfg.keepAliveHeaderSecs⟩, loc.keepAlive, false, none⟩
  let e' : Pending := ⟨loc.connId, ⟨.request 1, .last, Reactor.chunkFrame c true⟩, loc.keepAlive,
    true, none⟩
  have head : r.startStream sampleEnv 1 200 [] = r.pushWrite e := by
    simp only [Reactor.startStream, running, not_true_eq_false, if_false, found, notHead,
      Bool.false_eq_true]
    rfl
  have last : (r.pushWrite e).sendStreamChunk 1 c true =
      ((r.pushWrite e).eraseReq 1).pushWrite e' := by
    have running' : (r.pushWrite e).running = true := running
    have found' : (r.pushWrite e).findReq 1 = some loc := found
    simp only [Reactor.sendStreamChunk, running', found', not_true_eq_false, if_false, and_false,
      if_true]
    rfl
  let s := ((r.pushWrite e).eraseReq 1).pushWrite e'
  have batch : s.onAsync sampleEnv =
      (s.withQueue []).startAnswer sampleEnv [e.piece, e'.piece] loc.keepAlive true := by
    have two : s.queue = [e, e'] := by
      show r.queue ++ [e] ++ [e'] = [e, e']
      rw [queue]
      rfl
    have merged : Reactor.groups [e, e'] = [(e, [e'])] := by
      simp [Reactor.groups, e, e']
    have here : ¬ (e.connId ≠ (s.withQueue []).conn.id ∨ (s.withQueue []).gone ∨
        (s.withQueue []).conn.closing) := by
      rintro (other | gone | shut)
      · exact other own
      · exact Bool.false_ne_true (live.symm.trans gone)
      · exact Bool.false_ne_true (open_.symm.trans shut)
    have http' : (s.withQueue []).conn.ws = false := http
    have write : (s.withQueue []).writeGroup sampleEnv (e, [e']) =
        (s.withQueue []).writeAnswer sampleEnv [e.piece, e'.piece] loc.keepAlive true := by
      rw [Reactor.writeGroup, if_neg here]
      rfl
    rw [Reactor.onAsync, two, merged, List.foldl_cons, List.foldl_nil]
    exact write.trans (writeAnswer_finish sampleEnv http')
  refine ⟨s.onAsync sampleEnv, ?_, ?_, ?_⟩
  · rw [head, oneChunk]
    simp only [exec, guarded, steady, step, last, beq_self_eq_true, if_true, Option.bind_some]
    rfl
  · rw [batch]
    rfl
  · rw [batch]
    exact open_

/-- A stream of one chunk of that size reaches the wire, and is no body to the decoder. -/
theorem huge_undecoded {c : Bytes} (huge : 16 ^ 15 ≤ c.length) :
    ∃ r t body, Reaches (stepOf (step sampleEnv)) anyStep sampleConn r ∧
      r.findReq 1 = some ⟨0, false, true⟩ ∧
      (oneChunk c).filterMap callOf = script [] c ∧
      exec (guarded (fun r a => steady [] 1 r a = true) (step sampleEnv)) (oneChunk c)
        (r.startStream sampleEnv 1 200 []) = some t ∧
      t.ownQueue = [] ∧ t.conn.closing = false ∧
      bytesOf (wrote t) = bytesOf (wrote r) ++ (uvBuildStreamHead [] 200 [] true (some 5) ++ body) ∧
      ∀ cap D E, decodeChunked body 0 cap ≠ .complete D E := by
  obtain ⟨attached, running, found, own, live, opened, http, queue, owedNone⟩ := inFlight_get
  have reached := inFlight_runs "GET" attached
  obtain ⟨t, runs, drained, open_⟩ := oneChunk_runs (c := c) running found own live opened http
    queue rfl
  have calls : (oneChunk c).filterMap callOf = script [] c := rfl
  obtain ⟨before, last, written, -, bytes⟩ := stream_wire sampleConn_fresh reached running found
    own rfl 200 [] calls runs drained open_
  refine ⟨inFlight "GET", t, encoded [] c, reached, found, calls, runs, drained, open_, ?_,
    fun cap D E whole => ?_⟩
  · rw [written, bytesOf_append, bytes, owedNone]
    rfl
  · rw [decode_huge huge] at whole
    cases whole

/-- The answer of a HEAD request is its head alone, which no decoder takes for a whole body;
nor does it take one chunk of 2^60 bytes. -/
theorem stream_undecoded :
    (∃ r t, Reaches (stepOf (step sampleEnv)) anyStep sampleConn r ∧
      r.findReq 1 = some ⟨0, true, true⟩ ∧
      twoBatches.filterMap callOf = script [ascii "ab", []] (ascii "c") ∧
      exec (guarded (fun r a => steady [] 1 r a = true) (step sampleEnv)) twoBatches
        (r.startStream sampleEnv 1 200 []) = some t ∧
      t.ownQueue = [] ∧ t.conn.closing = false ∧
      wrote t = wrote r ++ [(uvBuildStreamHead [] 200 [] true (some 5), true)] ∧
      ∀ cap D E, decodeChunked [] 0 cap ≠ .complete D E) ∧
    ∃ r t body, Reaches (stepOf (step sampleEnv)) anyStep sampleConn r ∧
      r.findReq 1 = some ⟨0, false, true⟩ ∧
      (oneChunk (List.replicate (2 ^ 60) 0)).filterMap callOf =
        script [] (List.replicate (2 ^ 60) 0) ∧
      exec (guarded (fun r a => steady [] 1 r a = true) (step sampleEnv))
        (oneChunk (List.replicate (2 ^ 60) 0)) (r.startStream sampleEnv 1 200 []) = some t ∧
      t.ownQueue = [] ∧ t.conn.closing = false ∧
      bytesOf (wrote t) = bytesOf (wrote r) ++ (uvBuildStreamHead [] 200 [] true (some 5) ++ body) ∧
      ∀ cap D E, decodeChunked body 0 cap ≠ .complete D E := by
  constructor
  · have nothing : ∀ cap D E, decodeChunked [] 0 cap ≠ .complete D E := by
      intro cap D E
      rw [decodeChunked]
      exact decodeOverCap_ne
    obtain ⟨attached, found, runs, drained, open_, written⟩ := twoBatches_head
    obtain ⟨-, calls, -, -, -⟩ := twoBatches_get
    exact ⟨inFlight "HEAD", streamed "HEAD" twoBatches, inFlight_runs "HEAD" attached, found, calls,
      runs, drained, open_, written, nothing⟩
  · apply huge_undecoded
    rw [List.length_replicate]
    decide

end NitroServer.Answer
