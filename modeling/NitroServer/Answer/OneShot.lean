/-
One-shot answers are framed unambiguously.

`respond` writes a head and, unless the request was HEAD or the status has no content, the
body. A reader that knows the method takes exactly that many octets for one response
(`respond_reads_one`). Its framing rests on the engine's fields alone: no caller field that
passes the filters has a framing name (`sent_absent`), so the reader finds one
`Content-Length`, no `Transfer-Encoding`, and one `Connection` token.
-/

import NitroServer.Answer.Head

namespace NitroServer.Answer

open NitroServer.Engine NitroServer.Lib NitroServer.Lib.HttpReader

/-! ### The fields as they are read -/

/-- The caller's fields that go out, values without the blanks around them. -/
def sent (headers : List Header) : List HttpField :=
  (headers.filter sendable).map fun h => ⟨h.name, strip h.value⟩

/-- The fields of a one-shot answer, as a reader keeps them. -/
def answerFields (tm : Tm) (status : Nat) (headers : List Header) (contentLength : Nat)
    (keepAlive : Bool) (secs : Option Nat) : List HttpField :=
  [dateField tm] ++ sent headers ++
    (if bodyless status then [] else [lengthField contentLength]) ++ connection keepAlive secs

/-- The fields of a streamed answer, as a reader keeps them. -/
def streamedFields (tm : Tm) (headers : List Header) (keepAlive : Bool) (secs : Option Nat) :
    List HttpField :=
  [dateField tm] ++ sent headers ++ [chunkedField] ++ connection keepAlive secs

theorem strip_decimal (n : Nat) : strip (decimal n) = decimal n :=
  strip_solid fun b mem => (decimal_plain n b mem).2.1

theorem solid_ascii {cs : List Char}
    (solid : cs.all fun c => !HttpReader.isBlank c.toNat.toUInt8) :
    ∀ b ∈ ascii (String.ofList cs), HttpReader.isBlank b = false := by
  rw [ascii_ofList]
  intro b mem
  obtain ⟨c, hc, rfl⟩ := List.mem_map.mp mem
  exact Bool.not_eq_true' _ ▸ List.all_eq_true.mp solid c hc

theorem strip_ascii {cs : List Char}
    (solid : cs.all fun c => !HttpReader.isBlank c.toNat.toUInt8) :
    strip (ascii (String.ofList cs)) = ascii (String.ofList cs) :=
  strip_solid (solid_ascii solid)

theorem strip_dateValue (tm : Tm) : strip (dateValue tm) = dateValue tm := by
  rw [dateValue]
  split
  · have day : ∀ d : Fin 7, ∃ a s, dayName d = a :: s ∧ HttpReader.isBlank a = false := by
      intro d
      fin_cases d <;> exact ⟨_, _, ascii_ofList (_ :: _), by decide⟩
    have zone : ascii " GMT" = ascii " GM" ++ [84] := by
      rw [ascii_ofList, ascii_ofList]
      rfl
    obtain ⟨a, s, starts, solid⟩ := day tm.wday
    rw [longDate, zone, starts]
    simp only [← List.append_assoc]
    simp only [List.cons_append]
    exact strip_edges solid (by decide) _
  · rfl

theorem stripped_connection (keepAlive : Bool) (secs : Option Nat) :
    (connection keepAlive secs).map HttpField.stripped = connection keepAlive secs := by
  have close : strip (ascii "close") = ascii "close" := strip_ascii (by decide)
  have stay : strip (ascii "keep-alive") = ascii "keep-alive" := strip_ascii (by decide)
  have timeout : ∀ n, strip (ascii "timeout=" ++ decimal n) = ascii "timeout=" ++ decimal n := by
    intro n
    apply strip_solid
    intro b mem
    rcases List.mem_append.mp mem with mem | mem
    · exact solid_ascii (by decide) b mem
    · exact (decimal_plain n b mem).2.1
  cases keepAlive with
  | false =>
      simp only [connection, Bool.false_eq_true, if_false, List.map_singleton,
        HttpField.stripped, close]
  | true =>
      cases secs with
      | none =>
          simp only [connection, if_true, Option.toList_none, List.map_nil, List.map_cons,
            HttpField.stripped, stay]
      | some n =>
          simp only [connection, if_true, Option.toList_some, List.map_cons, List.map_nil,
            HttpField.stripped, stay, timeout]

theorem stripped_dateField (tm : Tm) : (dateField tm).stripped = dateField tm := by
  rw [dateField, HttpField.stripped, strip_dateValue]

theorem stripped_callers (headers : List Header) :
    (callers headers).map HttpField.stripped = sent headers := by
  rw [callers, List.map_map]
  rfl

theorem stripped_oneShot (tm : Tm) (status : Nat) (headers : List Header) (contentLength : Nat)
    (keepAlive : Bool) (secs : Option Nat) :
    (oneShotFields tm status headers contentLength keepAlive secs).map HttpField.stripped =
      answerFields tm status headers contentLength keepAlive secs := by
  have length : (if bodyless status then [] else [lengthField contentLength]).map
      HttpField.stripped = if bodyless status then [] else [lengthField contentLength] := by
    split
    · rfl
    · rw [List.map_singleton, lengthField, HttpField.stripped, strip_decimal]
  rw [oneShotFields, List.map_append, List.map_append, List.map_append, length,
    stripped_callers, stripped_connection, List.map_singleton, stripped_dateField]
  rfl

theorem stripped_stream (tm : Tm) (headers : List Header) (keepAlive : Bool)
    (secs : Option Nat) :
    (streamFields tm headers keepAlive secs).map HttpField.stripped =
      streamedFields tm headers keepAlive secs := by
  have coding : chunkedField.stripped = chunkedField := by
    have value : strip (ascii "chunked") = ascii "chunked" := strip_ascii (by decide)
    rw [chunkedField, HttpField.stripped, value]
  rw [streamFields, List.map_append, List.map_append, List.map_append, stripped_callers,
    stripped_connection, List.map_singleton, List.map_singleton, stripped_dateField, coding]
  rfl

/-! ### The framing names are the engine's -/

/-- The names `uvIsEngineOwnedHeader` keeps for the engine. -/
def owned : List String :=
  ["content-length", "connection", "transfer-encoding", "keep-alive", "upgrade", "trailer", "te"]

theorem sent_absent (name : String) (mem : name ∈ owned) (headers : List Header) :
    ∀ f ∈ sent headers, sameToken f.name (lit name) = false := by
  intro f here
  obtain ⟨h, kept, rfl⟩ := List.mem_map.mp here
  have keep := (List.mem_filter.mp kept).2
  simp only [sendable, uvIsEngineOwnedHeader, Bool.and_eq_true, Bool.not_eq_true',
    Bool.or_eq_false_iff, List.any_eq_false] at keep
  exact Bool.eq_false_iff.mpr (keep.1.1.1 name mem)

theorem sameToken_chars {cs ds : List Char} {b : Bool}
    (same : sameToken (cs.map fun c => c.toNat.toUInt8) (ds.map fun c => c.toNat.toUInt8) = b) :
    sameToken (ascii (String.ofList cs)) (lit (String.ofList ds)) = b := by
  rw [ascii_ofList, lit_ofList]
  exact same

theorem valuesOf_other {f : HttpField} {name : String}
    (other : sameToken f.name (lit name) = false) : valuesOf name [f] = [] := by
  simp [valuesOf, other]

theorem valuesOf_named {f : HttpField} {name : String} (same : sameToken f.name (lit name)) :
    valuesOf name [f] = [f.value] := by
  simp [valuesOf, same]

/-- The engine and the reader agree on which answers have no content. -/
theorem contentless_eq {isHead : Bool} {status : Nat} (low : 200 ≤ status)
    (high : status ≤ 599) : contentless isHead status = (isHead || bodyless status) := by
  have noInterim : (status / 100 == 1) = false := by
    rw [beq_eq_false_iff_ne]
    omega
  have noLow : (decide (100 ≤ status) && decide (status < 200)) = false := by
    simp
    omega
  rw [contentless, bodyless, noInterim, noLow, Bool.or_false, Bool.or_false, Bool.or_assoc]

section Values

variable (tm : Tm) (headers : List Header) (keepAlive : Bool) (secs : Option Nat)

theorem valuesOf_connection (name : String)
    (first : sameToken (ascii "Connection") (lit name) = false)
    (second : sameToken (ascii "Keep-Alive") (lit name) = false) :
    valuesOf name (connection keepAlive secs) = [] := by
  apply valuesOf_absent
  intro f mem
  cases keepAlive with
  | false =>
      simp only [connection, Bool.false_eq_true, if_false, List.mem_singleton] at mem
      rw [mem, first]
  | true =>
      simp only [connection, if_true, List.mem_cons, List.mem_map] at mem
      rcases mem with rfl | ⟨n, -, rfl⟩
      · exact first
      · exact second

/-- The one `Connection` value. -/
theorem connection_value : valuesOf "connection" (connection keepAlive secs) =
    [if keepAlive then ascii "keep-alive" else ascii "close"] := by
  have first : sameToken (ascii "Connection") (lit "connection") = true :=
    sameToken_chars (by decide)
  have second : sameToken (ascii "Keep-Alive") (lit "connection") = false :=
    sameToken_chars (by decide)
  cases keepAlive with
  | false => exact valuesOf_named first
  | true =>
      cases secs with
      | none => exact valuesOf_named first
      | some n =>
          simp only [connection, if_true, Option.toList_some, List.map_cons, List.map_nil]
          rw [← List.singleton_append, valuesOf_append, valuesOf_named first,
            valuesOf_other second]
          rfl

/-- An engine name finds the engine's own fields only. -/
theorem valuesOf_answer (name : String) (mem : name ∈ owned)
    (date : sameToken (ascii "Date") (lit name) = false) (framed : List HttpField) :
    valuesOf name ([dateField tm] ++ sent headers ++ framed ++ connection keepAlive secs) =
      valuesOf name framed ++ valuesOf name (connection keepAlive secs) := by
  have own : sameToken (dateField tm).name (lit name) = false := date
  rw [valuesOf_append, valuesOf_append, valuesOf_append, valuesOf_other own,
    valuesOf_absent (sent_absent name mem headers), List.nil_append, List.nil_append]

/-- A length frames a one-shot answer with content. -/
theorem framing_oneShot {isHead : Bool} {status : Nat} (low : 200 ≤ status)
    (high : status ≤ 599) (contentLength : Nat) :
    framing isHead status (answerFields tm status headers contentLength keepAlive secs) =
      if isHead || bodyless status then some .empty else some (.length contentLength) := by
  have same := @contentless_eq isHead status low high
  by_cases none_ : isHead || bodyless status
  · rw [framing, if_pos (by rw [same]; exact none_), if_pos none_]
  · have content : bodyless status = false := by simp_all
    have framed : (if bodyless status then [] else [lengthField contentLength]) =
        [lengthField contentLength] := if_neg (by simp [content])
    have other : sameToken (lengthField contentLength).name (lit "transfer-encoding") = false :=
      sameToken_chars (by decide)
    have named : sameToken (lengthField contentLength).name (lit "content-length") = true :=
      sameToken_chars (by decide)
    have coding : valuesOf "transfer-encoding"
        (answerFields tm status headers contentLength keepAlive secs) = [] := by
      rw [answerFields, valuesOf_answer tm headers keepAlive secs "transfer-encoding" (by decide)
        (sameToken_chars (by decide)), framed, valuesOf_other other,
        valuesOf_connection keepAlive secs "transfer-encoding"
          (sameToken_chars (by decide)) (sameToken_chars (by decide))]
      rfl
    have length : valuesOf "content-length"
        (answerFields tm status headers contentLength keepAlive secs) =
          [decimal contentLength] := by
      rw [answerFields, valuesOf_answer tm headers keepAlive secs "content-length" (by decide)
        (sameToken_chars (by decide)), framed, valuesOf_named named,
        valuesOf_connection keepAlive secs "content-length"
          (sameToken_chars (by decide)) (sameToken_chars (by decide))]
      rfl
    have plain := decimal_plain contentLength
    have element : elementsOf "content-length"
        (answerFields tm status headers contentLength keepAlive secs) =
          [decimal contentLength] := by
      rw [elementsOf, length, List.flatMap_singleton]
      exact elements_single (number_ne_nil (by omega) contentLength)
        (fun b mem => (plain b mem).2.1) fun b mem => (plain b mem).2.2.1
    rw [framing, if_neg (by rw [same]; exact none_), if_neg (not_not.mpr coding), length,
      if_pos (List.cons_ne_nil _ _), element, if_neg none_]
    exact agreedLength_number contentLength

/-- The chunked coding frames a streamed answer with content. -/
theorem framing_stream {isHead : Bool} {status : Nat} (low : 200 ≤ status)
    (high : status ≤ 599) :
    framing isHead status (streamedFields tm headers keepAlive secs) =
      if isHead || bodyless status then some .empty else some .chunked := by
  by_cases none_ : isHead || bodyless status
  · rw [framing, if_pos (by rw [contentless_eq low high]; exact none_), if_pos none_]
  · have named : sameToken chunkedField.name (lit "transfer-encoding") = true :=
      sameToken_chars (by decide)
    have other : sameToken chunkedField.name (lit "content-length") = false :=
      sameToken_chars (by decide)
    have coding : valuesOf "transfer-encoding" (streamedFields tm headers keepAlive secs) =
        [ascii "chunked"] := by
      rw [streamedFields, valuesOf_answer tm headers keepAlive secs "transfer-encoding" (by decide)
        (sameToken_chars (by decide)), valuesOf_named named,
        valuesOf_connection keepAlive secs "transfer-encoding"
          (sameToken_chars (by decide)) (sameToken_chars (by decide))]
      rfl
    have length : valuesOf "content-length" (streamedFields tm headers keepAlive secs) = [] := by
      rw [streamedFields, valuesOf_answer tm headers keepAlive secs "content-length" (by decide)
        (sameToken_chars (by decide)), valuesOf_other other,
        valuesOf_connection keepAlive secs "content-length"
          (sameToken_chars (by decide)) (sameToken_chars (by decide))]
      rfl
    have last : (elementsOf "transfer-encoding"
        (streamedFields tm headers keepAlive secs)).getLast?.any
          (sameToken · (lit "chunked")) = true := by
      rw [elementsOf, coding, ascii_ofList, lit_ofList]
      decide
    rw [framing, if_neg (by rw [contentless_eq low high]; exact none_), if_pos (by simp [coding]),
      if_neg (by simp [length]), if_pos last, if_neg none_]

/-- The engine's `Connection` field says close exactly when the connection is not kept. -/
theorem close_token (framed : List HttpField) (plain : valuesOf "connection" framed = []) :
    hasToken "connection" "close"
        ([dateField tm] ++ sent headers ++ framed ++ connection keepAlive secs) =
      !keepAlive := by
  have value := valuesOf_answer tm headers keepAlive secs "connection" (by decide)
    (sameToken_chars (by decide)) framed
  rw [plain, connection_value, List.nil_append] at value
  cases keepAlive with
  | false =>
      have element : elementsOf "connection" ([dateField tm] ++ sent headers ++ framed ++
          connection false secs) = [ascii "close"] := by
        rw [elementsOf, value, ascii_ofList]
        decide
      rw [hasToken, element, List.any_cons, List.any_nil, Bool.or_false]
      exact sameToken_chars (by decide)
  | true =>
      have element : elementsOf "connection" ([dateField tm] ++ sent headers ++ framed ++
          connection true secs) = [ascii "keep-alive"] := by
        rw [elementsOf, value, if_pos rfl, ascii_ofList]
        decide
      rw [hasToken, element, List.any_cons, List.any_nil, Bool.or_false]
      exact sameToken_chars (by decide)

end Values

/-! ### One response, and nothing left -/

/-- The content a response to the request carries. -/
def contentOf (isHead : Bool) (status : Nat) (body : Bytes) : Bytes :=
  if isHead || bodyless status then [] else body

/-- A one-shot head is read with as much content as its length says, if it has content. -/
theorem oneShot_reads (tm : Tm) {status : Nat} (low : 200 ≤ status) (high : status ≤ 599)
    (headers : List Header) {contentLength : Nat} (keepAlive : Bool) (secs : Option Nat)
    (isHead : Bool) (body : Bytes) (length : isHead = false → contentLength = body.length)
    (rest : Bytes) :
    readResponse isHead
        (uvBuildHead (uvDateHeader tm) status headers contentLength keepAlive secs ++
          (contentOf isHead status body ++ rest)) =
      some (⟨status, answerFields tm status headers contentLength keepAlive secs,
        contentOf isHead status body⟩, rest) := by
  rw [uvBuildHead_eq, readResponse_head (text_statusText status) (statusText_read low high)
    (oneShotFields_legal tm status headers contentLength keepAlive secs), stripped_oneShot,
    framing_oneShot tm headers keepAlive secs low high]
  by_cases none_ : isHead || bodyless status
  · rw [contentOf, if_pos none_, if_pos none_]
    rfl
  · have known : isHead = false := by
      cases isHead with
      | false => rfl
      | true => exact absurd rfl none_
    rw [contentOf, if_neg none_, if_neg none_, Option.bind_some, length known,
      readContent_length]
    rfl

theorem answer_closes (tm : Tm) (status : Nat) (headers : List Header) (contentLength : Nat)
    (keepAlive : Bool) (secs : Option Nat) :
    hasToken "connection" "close"
        (answerFields tm status headers contentLength keepAlive secs) = !keepAlive := by
  apply close_token
  have other : sameToken (lengthField contentLength).name (lit "connection") = false :=
    sameToken_chars (by decide)
  split
  · rfl
  · exact valuesOf_other other

/-- The one entry an answered request leaves in the inbox. -/
theorem respondWith_queue (env : Env) (r : Reactor) (id status : Nat) (headers : List Header)
    (body : Bytes) (bodyLen : Nat) {loc : ReqLoc} (running : r.running)
    (found : r.findReq id = some loc) :
    (r.respondWith env id status headers body bodyLen).queue = r.queue ++
      [⟨loc.connId, ⟨.request id, .whole,
        uvBuildHead (r.date env) status headers bodyLen loc.keepAlive
            env.cfg.keepAliveHeaderSecs ++
          contentOf loc.isHead status body⟩, loc.keepAlive, true, none⟩] := by
  have same : (if !loc.isHead && !bodyless status then body else []) =
      contentOf loc.isHead status body := by
    rw [contentOf]
    cases loc.isHead <;> cases bodyless status <;> rfl
  simp only [Reactor.respondWith, running, not_true_eq_false, if_false, found, same]
  rfl

/-- The bytes of `respond` are exactly one response to the request: its status, the caller's
sendable fields among the engine's own, its content, and `Connection: close` exactly when the
connection is not kept. -/
theorem respond_reads_one (env : Env) (gmtime : Nat → Tm) (r : Reactor) (id : Nat)
    {status : Nat} (low : 200 ≤ status) (high : status ≤ 599) (headers : List Header)
    (body : Bytes) {loc : ReqLoc} (running : r.running) (found : r.findReq id = some loc) :
    ∃ out answer,
      (r.respond (dated env gmtime) id status headers body).queue = r.queue ++
        [⟨loc.connId, ⟨.request id, .whole, out⟩, loc.keepAlive, true, none⟩] ∧
      readResponse loc.isHead out = some (answer, []) ∧
      answer.status = status ∧
      answer.fields = answerFields (gmtime r.clock) status headers body.length loc.keepAlive
        env.cfg.keepAliveHeaderSecs ∧
      answer.content = contentOf loc.isHead status body ∧
      (hasToken "connection" "close" answer.fields ↔ loc.keepAlive = false) := by
  have reads := oneShot_reads (gmtime r.clock) low high headers loc.keepAlive
    env.cfg.keepAliveHeaderSecs loc.isHead body (fun _ => rfl) []
  rw [List.append_nil] at reads
  refine ⟨_, _, respondWith_queue (dated env gmtime) r id status headers body body.length running
    found, reads, rfl, rfl, rfl, ?_⟩
  rw [answer_closes, Bool.not_eq_true']

/-- A handler's `Connection` and a value that would split the head stay off the wire. -/
theorem respond_reads_one_split :
    ∃ out answer,
      (({ sampleConn with reqLoc := [(7, ⟨0, false, true⟩)] }).respond
          (dated sampleEnv fun _ => ⟨1970, 0, 1, 0, 0, 0, 4⟩) 7 200
          [⟨ascii "Connection", ascii "close"⟩, ⟨ascii "X", ascii "a\r\nSet-Cookie: b"⟩]
          (ascii "hi")).queue =
        [⟨0, ⟨.request 7, .whole, out⟩, true, true, none⟩] ∧
      readResponse false out = some (answer, []) ∧ answer.status = 200 ∧
      answer.fields = answerFields ⟨1970, 0, 1, 0, 0, 0, 4⟩ 200
        [⟨ascii "Connection", ascii "close"⟩, ⟨ascii "X", ascii "a\r\nSet-Cookie: b"⟩] 2 true
        (some 5) ∧
      answer.content = contentOf false 200 (ascii "hi") ∧
      (hasToken "connection" "close" answer.fields ↔ true = false) :=
  respond_reads_one sampleEnv (fun _ => ⟨1970, 0, 1, 0, 0, 0, 4⟩)
    { sampleConn with reqLoc := [(7, ⟨0, false, true⟩)] } 7 (by decide) (by decide) _ _ rfl rfl

end NitroServer.Answer
