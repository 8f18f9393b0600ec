/-
The gate in front of every answer (`_deliver` in `server_runner.dart`): which of a handler's
response goes to the engine.

* `gate` — the headers in lower case without those that are the engine's own, over the server's
  name; a name or value that could split the head, or a cookie that its own check refuses,
  replaces the whole response by the generic 500.
* `gate_verdict` — when it does, and that otherwise only the header map changes, and how.
* `fields_reach_client` — what the gate lets through is what the client reads: no field is lost
  or changed on the way over the bridge and through the engine's head builder.

`toLowerCase` is a parameter, as in `Api.Multipart`.
-/

import NitroServer.Answer.OneShot
import NitroServer.Api.Compress
import NitroServer.Bridge.HeaderList

namespace NitroServer.Runner

open Api (SetCookie Unicode isTokenUnit intText lowerUnit)
open Bridge (DartString text)
open Engine (Bytes Header ascii)
open Lib

/-! ### Responses -/

/-- What a response carries: a body (a writer's buffer included), a file, or a stream. -/
inductive Content where
  | body (bytes : Bytes)
  | file (path : DartString) (offset length : Int)
  | stream (bufferSize : Nat)
deriving DecidableEq, Repr

/-- `ResponseContext`, with what `_deliver` and the answer calls read of it. -/
structure Response where
  status : Int
  headers : Table DartString DartString
  cookies : List SetCookie
  content : Content

/-- `bodyBytes`: empty for a file and for a stream. -/
def Response.bodyBytes (response : Response) : Bytes :=
  match response.content with
  | .body bytes => bytes
  | _ => []

/-- `_genericError`; `_deliver` gives it headers of its own. -/
def genericError : Response where
  status := 500
  headers := .empty
  cookies := []
  content := .body (ascii "internal server error")

/-! ### The gate -/

/-- `_engineOwnedHeaders`. -/
def engineOwnedHeaders : List DartString :=
  [text "content-length", text "connection", text "transfer-encoding", text "keep-alive",
    text "upgrade", text "trailer", text "te"]

/-- A name that is skipped: the engine's to set. -/
def isSkipped (name : DartString) : Bool :=
  engineOwnedHeaders.contains name || (text "proxy-").isPrefixOf name

/-- `_isToken`. -/
def isToken (name : DartString) : Bool := name ≠ [] && name.all isTokenUnit

/-- `_isSafeHeaderValue`. -/
def isSafeHeaderValue (value : DartString) : Bool :=
  value.all fun c => !((c < 0x20 && c != 0x09) || c == 0x7f)

/-- `<String, String>{'x-server': ?serverHeader}`. -/
def startHeaders (serverHeader : Option DartString) : Table DartString DartString :=
  serverHeader.elim .empty fun value => Table.empty.set (text "x-server") value

section Gate

variable (lib : Unicode) (serverHeader : Option DartString)

/-- The loop over the response's headers; an error is the name that stops it. -/
def gateHeaders : List Bridge.Entry → Table DartString DartString →
    Except DartString (Table DartString DartString)
  | [], headers => .ok headers
  | e :: entries, headers =>
      let name := lib.toLowerCase e.1
      if isSkipped name then gateHeaders entries headers
      else if !isToken name || !isSafeHeaderValue e.2 then .error e.1
      else gateHeaders entries (headers.set name e.2)

/-- What goes out instead of a refused response. -/
def refused : Response := { genericError with headers := startHeaders serverHeader }

/-- The message of the `handlerError` event for a refused header. -/
def headerRejected (name : DartString) : DartString :=
  text "response header rejected: \"" ++ name ++
    text "\" (invalid name or control byte in value)"

/-- The message of the `handlerError` event for a refused cookie. -/
def cookieRejected (problem : DartString) : DartString := text "set-cookie rejected: " ++ problem

/-- The first part of `_deliver`: the response as it goes out, and the events it adds. -/
def gate (response : Response) : Response × List DartString :=
  match gateHeaders lib response.headers.entries (startHeaders serverHeader) with
  | .error name => (refused serverHeader, [headerRejected name])
  | .ok headers =>
      match response.cookies.findSome? SetCookie.validationError with
      | some problem => (refused serverHeader, [cookieRejected problem])
      | none => ({ response with headers := headers }, [])

end Gate

/-! ### What it lets through -/

/-- A header that does not stop the loop. -/
def EntryPasses (lib : Unicode) (e : Bridge.Entry) : Prop :=
  isSkipped (lib.toLowerCase e.1) = false →
    isToken (lib.toLowerCase e.1) = true ∧ isSafeHeaderValue e.2 = true

/-- A response that goes out as the handler meant it. -/
structure Passes (lib : Unicode) (response : Response) : Prop where
  headers : ∀ e ∈ response.headers.entries, EntryPasses lib e
  cookies : ∀ cookie ∈ response.cookies, cookie.validationError = none

/-- Dart's `toLowerCase` leaves no capital letter of ASCII. -/
def Lowers (lib : Unicode) : Prop := ∀ s, ∀ u ∈ lib.toLowerCase s, lowerUnit u = u

/-- A header as the engine gets it. -/
structure Clean (e : Bridge.Entry) : Prop where
  kept : isSkipped e.1 = false
  token : isToken e.1 = true
  lower : ∀ u ∈ e.1, lowerUnit u = u
  safe : isSafeHeaderValue e.2 = true

section Verdict

variable {lib : Unicode} {entries : List Bridge.Entry} {headers out : Table DartString DartString}

/-- The loop's turn for a header that passes. -/
theorem gateHeaders_pass {e : Bridge.Entry} (pass : EntryPasses lib e) :
    gateHeaders lib (e :: entries) headers =
      gateHeaders lib entries
        (if isSkipped (lib.toLowerCase e.1) then headers
          else headers.set (lib.toLowerCase e.1) e.2) := by
  rw [gateHeaders]
  cases skip : isSkipped (lib.toLowerCase e.1) with
  | true => rfl
  | false => simp [pass skip]

/-- The loop's turn for a header that does not. -/
theorem gateHeaders_stop {e : Bridge.Entry} (stop : ¬ EntryPasses lib e) :
    gateHeaders lib (e :: entries) headers = .error e.1 := by
  rw [EntryPasses, Classical.not_imp] at stop
  obtain ⟨skip, bad⟩ := stop
  have either : (!isToken (lib.toLowerCase e.1) || !isSafeHeaderValue e.2) = true := by
    rw [← Bool.not_and, Bool.not_eq_true', Bool.eq_false_iff, ne_eq, Bool.and_eq_true]
    exact bad
  simp only [gateHeaders, skip, Bool.false_eq_true, if_false, either, if_true]

/-- The loop ends exactly when every header passes. -/
theorem gateHeaders_ok_iff :
    (∃ out, gateHeaders lib entries headers = .ok out) ↔ ∀ e ∈ entries, EntryPasses lib e := by
  induction entries generalizing headers with
  | nil => simp [gateHeaders]
  | cons e entries ih =>
      by_cases pass : EntryPasses lib e
      · rw [gateHeaders_pass pass, ih, List.forall_mem_cons]
        exact ⟨fun rest => ⟨pass, rest⟩, fun all => all.2⟩
      · rw [gateHeaders_stop pass]
        constructor
        · rintro ⟨_, ended⟩
          cases ended
        · intro all
          exact absurd (all e List.mem_cons_self) pass

/-- The loop stops at a header of the response. -/
theorem gateHeaders_error {name : DartString}
    (stopped : gateHeaders lib entries headers = .error name) :
    ∃ e ∈ entries, e.1 = name ∧ ¬ EntryPasses lib e := by
  induction entries generalizing headers with
  | nil => cases stopped
  | cons e entries ih =>
      by_cases pass : EntryPasses lib e
      · rw [gateHeaders_pass pass] at stopped
        obtain ⟨e', mem, found⟩ := ih stopped
        exact ⟨e', List.mem_cons_of_mem _ mem, found⟩
      · rw [gateHeaders_stop pass, Except.error.injEq] at stopped
        exact ⟨e, List.mem_cons_self, stopped, pass⟩

/-- What the loop leaves is clean, over a clean start. -/
theorem gateHeaders_clean (lowers : Lowers lib) (clean : ∀ e ∈ headers.entries, Clean e)
    (ended : gateHeaders lib entries headers = .ok out) : ∀ e ∈ out.entries, Clean e := by
  induction entries generalizing headers with
  | nil =>
      cases ended
      exact clean
  | cons e entries ih =>
      have pass := gateHeaders_ok_iff.mp ⟨out, ended⟩ e List.mem_cons_self
      rw [gateHeaders_pass pass] at ended
      refine ih ?_ ended
      cases skip : isSkipped (lib.toLowerCase e.1) with
      | true => exact clean
      | false =>
          intro f mem
          rcases Api.mem_entries_set mem with rfl | old
          · exact ⟨skip, (pass skip).1, lowers e.1, (pass skip).2⟩
          · exact clean f old

/-- A kept name has its last value of the response, else what it started with. -/
theorem gateHeaders_find {all : Table DartString DartString} {base : DartString → Option DartString}
    (start : ∀ name, isSkipped name = false →
      headers.find name = (all.find name).or (base name))
    (ended : gateHeaders lib entries headers = .ok out) :
    ∀ name, isSkipped name = false → out.find name =
      ((entries.foldl (fun all e => all.set (lib.toLowerCase e.1) e.2) all).find name).or
        (base name) := by
  induction entries generalizing headers all with
  | nil =>
      cases ended
      exact start
  | cons e entries ih =>
      have pass := gateHeaders_ok_iff.mp ⟨out, ended⟩ e List.mem_cons_self
      rw [gateHeaders_pass pass] at ended
      refine ih ?_ ended
      intro name kept
      rw [Table.find_set]
      by_cases same : name = lib.toLowerCase e.1
      · subst same
        rw [kept, if_neg Bool.false_ne_true, Table.find_set, if_pos rfl, if_pos rfl]
        rfl
      · rw [if_neg same, ← start name kept]
        split
        · rfl
        · rw [Table.find_set, if_neg same]

/-- A skipped name is not among the headers. -/
theorem gateHeaders_skipped {name : DartString} (skip : isSkipped name = true)
    (start : headers.find name = none) (ended : gateHeaders lib entries headers = .ok out) :
    out.find name = none := by
  induction entries generalizing headers with
  | nil =>
      cases ended
      exact start
  | cons e entries ih =>
      have pass := gateHeaders_ok_iff.mp ⟨out, ended⟩ e List.mem_cons_self
      rw [gateHeaders_pass pass] at ended
      refine ih ?_ ended
      split
      · exact start
      · rename_i kept
        rw [Table.find_set, if_neg, start]
        rintro rfl
        exact kept skip

end Verdict

theorem isSkipped_server : isSkipped (text "x-server") = false := by decide

theorem startHeaders_skipped {serverHeader : Option DartString} {name : DartString}
    (skip : isSkipped name = true) : (startHeaders serverHeader).find name = none := by
  cases serverHeader with
  | none => rfl
  | some value =>
      have other : name ≠ text "x-server" := by
        rintro rfl
        rw [isSkipped_server] at skip
        cases skip
      exact (Table.find_set ..).trans (if_neg other)

/-- What the gate makes of a response: one that passes keeps its status, cookies and content, and
has its headers by their lower-case names, the last of each, without the engine's own and over the
server's; any other goes out as the bare 500, with one event that names what was wrong. -/
theorem gate_verdict (lib : Unicode) (serverHeader : Option DartString) (response : Response) :
    (Passes lib response → ∃ headers,
      gate lib serverHeader response = ({ response with headers := headers }, []) ∧
      ∀ name, headers.find name =
        if isSkipped name then none
        else ((lib.normalized response.headers).find name).or
          ((startHeaders serverHeader).find name)) ∧
    (¬ Passes lib response → ∃ message,
      gate lib serverHeader response = (refused serverHeader, [message]) ∧
      ((∃ e ∈ response.headers.entries, ¬ EntryPasses lib e ∧ message = headerRejected e.1) ∨
        ∃ cookie ∈ response.cookies, ∃ problem, cookie.validationError = some problem ∧
          message = cookieRejected problem)) := by
  cases ran : gateHeaders lib response.headers.entries (startHeaders serverHeader) with
  | error name =>
      obtain ⟨e, mem, rfl, stop⟩ := gateHeaders_error ran
      constructor
      · intro passes
        exact absurd (passes.headers e mem) stop
      · intro _
        exact ⟨headerRejected e.1, by rw [gate, ran], .inl ⟨e, mem, stop, rfl⟩⟩
  | ok headers =>
      have all := gateHeaders_ok_iff.mp ⟨headers, ran⟩
      cases found : response.cookies.findSome? SetCookie.validationError with
      | some problem =>
          obtain ⟨cookie, mem, bad⟩ := List.exists_of_findSome?_eq_some found
          constructor
          · intro passes
            rw [passes.cookies cookie mem] at bad
            cases bad
          · intro _
            refine ⟨cookieRejected problem, ?_, .inr ⟨cookie, mem, problem, bad, rfl⟩⟩
            simp only [gate, ran, found]
      | none =>
          constructor
          · intro _
            refine ⟨headers, by simp only [gate, ran, found], fun name => ?_⟩
            cases skip : isSkipped name with
            | true => exact gateHeaders_skipped skip (startHeaders_skipped skip) ran
            | false => exact gateHeaders_find (fun _ _ => rfl) ran name skip
          · intro fails
            exact absurd ⟨all, List.findSome?_eq_none_iff.mp found⟩ fails

/-! ### On the wire -/

section Wire

open Answer Bridge
open Lib.HttpReader (HttpField strip readResponse)

/-- `FastCalls.serverTiming`: microseconds as milliseconds with three digits. -/
def serverTiming (us : Nat) : DartString :=
  let rest := intText (us % 1000 : Nat)
  text "app;dur=" ++ intText (us / 1000 : Nat) ++ text "." ++
    List.replicate (3 - rest.length) 0x30 ++ rest

/-- A field as the client has it: its value without the blanks around it. -/
def wireField (e : Bridge.Entry) : HttpField := ⟨utf8Encode e.1, strip (utf8Encode e.2)⟩

theorem isTokenUnit_low {u : UInt16} (token : isTokenUnit u = true) : u < 0x80 := by
  simp only [isTokenUnit, Bool.or_eq_true, Bool.and_eq_true, decide_eq_true_eq, beq_iff_eq,
    ge_iff_le, UInt16.le_iff_toNat_le, UInt16.lt_iff_toNat_lt, ← UInt16.toNat_inj,
    UInt16.reduceToNat] at token ⊢
  omega

/-- The two token alphabets are one. -/
theorem token_byte {u : UInt16} (token : isTokenUnit u = true) :
    Engine.uvIsToken [UInt8.ofNat u.toNat] = true := by
  have all : ∀ n < 128, isTokenUnit (UInt16.ofNat n) = true →
      Engine.uvIsToken [UInt8.ofNat n] = true := by
    decide +kernel
  have low : u.toNat < 128 := isTokenUnit_low token
  have at_ := all u.toNat low
  rw [UInt16.ofNat_toNat] at at_
  exact at_ token

theorem lowerUnit_byte {u : UInt16} (low : u < 0x80) (lower : lowerUnit u = u) :
    Engine.lower (UInt8.ofNat u.toNat) = UInt8.ofNat u.toNat := by
  have all : ∀ n < 128, lowerUnit (UInt16.ofNat n) = UInt16.ofNat n →
      Engine.lower (UInt8.ofNat n) = UInt8.ofNat n := by
    decide +kernel
  have small : u.toNat < 128 := low
  have at_ := all u.toNat small
  rw [UInt16.ofNat_toNat] at at_
  exact at_ lower

theorem uvIsToken_iff (name : Bytes) :
    Engine.uvIsToken name = true ↔ name ≠ [] ∧ ∀ b ∈ name, Engine.uvIsToken [b] = true := by
  simp [Engine.uvIsToken]

/-- A safe value stays safe as UTF-8. -/
theorem safe_encoded {value : DartString} (safe : isSafeHeaderValue value = true) :
    Engine.uvIsSafeValue (utf8Encode value) = true := by
  rw [isSafeHeaderValue, List.all_eq_true] at safe
  rw [Engine.uvIsSafeValue, List.all_eq_true]
  intro b mem
  by_cases low : b < 0x80
  · obtain ⟨u, here, same⟩ := utf8Encode_low low mem
    have unit := safe u here
    simp only [Bool.not_eq_true', Bool.or_eq_false_iff, Bool.and_eq_false_iff,
      decide_eq_false_iff_not, bne_eq_false_iff_eq, beq_eq_false_iff_ne, ne_eq,
      UInt16.lt_iff_toNat_lt, ← UInt16.toNat_inj, UInt16.reduceToNat, UInt8.lt_iff_toNat_lt,
      ← UInt8.toNat_inj, UInt8.reduceToNat] at unit ⊢
    omega
  · simp only [Bool.not_eq_true', Bool.or_eq_false_iff, Bool.and_eq_false_iff,
      decide_eq_false_iff_not, bne_eq_false_iff_eq, beq_eq_false_iff_ne, ne_eq,
      UInt8.lt_iff_toNat_lt, ← UInt8.toNat_inj, UInt8.reduceToNat] at low ⊢
    omega

/-- ASCII text is its bytes. -/
theorem encoded_inj {a b : DartString} (lowA : ∀ u ∈ a, u < 0x80) (lowB : ∀ u ∈ b, u < 0x80)
    (same : utf8Encode a = utf8Encode b) : a = b := by
  induction a generalizing b with
  | nil =>
      cases b with
      | nil => rfl
      | cons v b => exact absurd same.symm (utf8Encode_ne_nil (List.cons_ne_nil v b))
  | cons u a ih =>
      obtain ⟨lowU, lowA⟩ := List.forall_mem_cons.mp lowA
      cases b with
      | nil => exact absurd same (utf8Encode_ne_nil (List.cons_ne_nil u a))
      | cons v b =>
          obtain ⟨lowV, lowB⟩ := List.forall_mem_cons.mp lowB
          rw [utf8Encode_cons_ascii lowU, utf8Encode_cons_ascii lowV, List.cons.injEq] at same
          have smallU : u.toNat < 128 := lowU
          have smallV : v.toNat < 128 := lowV
          have units : u.toNat = v.toNat := by
            have bytes := congrArg UInt8.toNat same.1
            rwa [UInt8.toNat_ofNat_of_lt' (by show _ < 256; omega),
              UInt8.toNat_ofNat_of_lt' (by show _ < 256; omega)] at bytes
          rw [UInt16.toNat_inj.mp units, ih lowA lowB same.2]

section Sendable

variable {e : Bridge.Entry}

theorem Clean.low (clean : Clean e) : ∀ u ∈ e.1, u < 0x80 := by
  have token := clean.token
  rw [isToken, Bool.and_eq_true, List.all_eq_true] at token
  exact fun u mem => isTokenUnit_low (token.2 u mem)

theorem Clean.lower_bytes (clean : Clean e) (n : Nat) :
    ((utf8Encode e.1).take n).map Engine.lower = (utf8Encode e.1).take n := by
  rw [utf8Encode_ascii clean.low]
  conv_rhs => rw [← List.map_id ((e.1.map _).take n)]
  apply List.map_congr_left
  intro b mem
  obtain ⟨u, here, rfl⟩ := List.mem_map.mp (List.mem_of_mem_take mem)
  exact lowerUnit_byte (clean.low u here) (clean.lower u here)

theorem text_low {s : String} (low : (text s).all (· < 0x80) = true) : ∀ u ∈ text s, u < 0x80 := by
  intro u mem
  exact of_decide_eq_true (List.all_eq_true.mp low u mem)

/-- The engine owns no name that the gate keeps. -/
theorem Clean.not_owned (clean : Clean e) :
    Engine.uvIsEngineOwnedHeader (utf8Encode e.1) = false := by
  have names : (["content-length", "connection", "transfer-encoding", "keep-alive", "upgrade",
      "trailer", "te"].all fun o => (ascii o).map Engine.lower == utf8Encode (text o) &&
        (text o).all (· < 0x80) && isSkipped (text o)) = true := by
    decide +kernel
  have kept := clean.kept
  rw [Engine.uvIsEngineOwnedHeader, Bool.or_eq_false_iff]
  constructor
  · rw [List.any_eq_false]
    intro o mem same
    have here := List.all_eq_true.mp names o mem
    simp only [Bool.and_eq_true, beq_iff_eq] at here
    have whole := clean.lower_bytes (utf8Encode e.1).length
    rw [List.take_length] at whole
    rw [Engine.uvIequals, beq_iff_eq, whole, here.1.1] at same
    rw [encoded_inj clean.low (text_low here.1.2) same, here.2] at kept
    cases kept
  · rw [Bool.eq_false_iff]
    intro proxied
    simp only [Bool.and_eq_true, beq_iff_eq, clean.lower_bytes] at proxied
    have bytes : ascii "proxy-" = utf8Encode (text "proxy-") := by decide +kernel
    have cut : utf8Encode (e.1.take 6) = (utf8Encode e.1).take 6 := by
      rw [utf8Encode_ascii clean.low, ← List.map_take,
        utf8Encode_ascii fun u mem => clean.low u (List.mem_of_mem_take mem)]
    have front : e.1.take 6 = text "proxy-" :=
      encoded_inj (fun u mem => clean.low u (List.mem_of_mem_take mem)) (text_low (by decide))
        (cut.trans (proxied.2.trans bytes))
    have behind : (text "proxy-").isPrefixOf e.1 = true :=
      List.isPrefixOf_iff_prefix.mpr (front ▸ List.take_prefix 6 e.1)
    rw [isSkipped, behind, Bool.or_true] at kept
    cases kept

/-- The engine sends every header that the gate keeps. -/
theorem Clean.sendable (clean : Clean e) : sendable (engineHeader e) = true := by
  have token := clean.token
  rw [isToken, Bool.and_eq_true, List.all_eq_true, decide_eq_true_eq] at token
  have named : Engine.uvIsToken (utf8Encode e.1) = true := by
    rw [uvIsToken_iff]
    refine ⟨utf8Encode_ne_nil token.1, fun b mem => ?_⟩
    rw [utf8Encode_ascii clean.low] at mem
    obtain ⟨u, here, rfl⟩ := List.mem_map.mp mem
    exact token_byte (token.2 u here)
  simp only [Answer.sendable, engineHeader, clean.not_owned, named, safe_encoded clean.safe,
    Bool.not_false, Bool.and_true]

end Sendable

/-! ### What the gate sends -/

/-- The header list of an answer: `_rawHeaders`, or what `FastCalls.respond` encodes. -/
def sentEntries (out : Response) (timingUs : Option Nat) : List Bridge.Entry :=
  allEntries out.headers.entries (out.cookies.map SetCookie.toHeaderValue)
    (timingUs.map serverTiming)

theorem clean_named {name value : DartString}
    (fixed : (!isSkipped name && isToken name && name.all fun u => lowerUnit u == u) = true)
    (safe : isSafeHeaderValue value = true) : Clean (name, value) := by
  simp only [Bool.and_eq_true, Bool.not_eq_true', List.all_eq_true, beq_iff_eq] at fixed
  exact ⟨fixed.1.1, fixed.1.2, fixed.2, safe⟩

theorem safe_of_unit {value : DartString} (plain : ∀ u ∈ value, 0x20 ≤ u ∧ u ≠ 0x7f) :
    isSafeHeaderValue value = true := by
  rw [isSafeHeaderValue, List.all_eq_true]
  intro u mem
  obtain ⟨printable, other⟩ := plain u mem
  simp [UInt16.not_lt.mpr printable, other]

theorem plain_of_unbarred {s : DartString} (free : Api.Unbarred s) :
    ∀ u ∈ s, 0x20 ≤ u ∧ u ≠ 0x7f := by
  intro u mem
  have unit := free u mem
  simp only [Api.isBarred, Bool.or_eq_false_iff, decide_eq_false_iff_not, beq_eq_false_iff_ne,
    UInt16.not_lt] at unit
  exact unit.1

/-- A cookie that passes its check cannot split the head. -/
theorem cookie_safe {cookie : SetCookie} (none_ : cookie.validationError = none) :
    isSafeHeaderValue cookie.toHeaderValue = true := by
  have accepted := SetCookie.accepted_of_validationError none_
  apply safe_of_unit
  intro u mem
  rw [Api.toHeaderValue_eq] at mem
  rcases List.mem_append.mp mem with pair | attributes
  · exact plain_of_unbarred (SetCookie.unbarred_pair accepted) u pair
  · obtain ⟨a, among, here⟩ := List.mem_flatMap.mp attributes
    rcases List.mem_cons.mp here with rfl | here
    · decide
    rcases List.mem_cons.mp here with rfl | here
    · decide
    · exact plain_of_unbarred (SetCookie.unbarred_attributeText accepted a among) u here

theorem serverTiming_safe (us : Nat) : isSafeHeaderValue (serverTiming us) = true := by
  have fixed {s : String} (all : (text s).all (fun u => decide (0x20 ≤ u) && u != 0x7f) = true) :
      ∀ u ∈ text s, 0x20 ≤ u ∧ u ≠ 0x7f := by
    intro u mem
    simpa using List.all_eq_true.mp all u mem
  have number (n : Int) := plain_of_unbarred (Api.unbarred_intText n)
  apply safe_of_unit
  intro u mem
  simp only [serverTiming, List.mem_append] at mem
  rcases mem with (((front | whole) | dot) | zeros) | rest
  · exact fixed (by decide) u front
  · exact number _ u whole
  · exact fixed (by decide) u dot
  · rw [List.eq_of_mem_replicate zeros]
    decide
  · exact number _ u rest

section Sent

variable {lib : Unicode} {serverHeader : Option DartString}

theorem startHeaders_clean (named : ∀ v, serverHeader = some v → isSafeHeaderValue v = true) :
    ∀ e ∈ (startHeaders serverHeader).entries, Clean e := by
  cases serverHeader with
  | none =>
      intro e mem
      cases mem
  | some value =>
      intro e mem
      rcases Api.mem_entries_set mem with rfl | none_
      · exact clean_named (by decide) (named value rfl)
      · cases none_

/-- Whatever the handler answers, what goes out is clean. -/
theorem gate_clean (lowers : Lowers lib)
    (named : ∀ v, serverHeader = some v → isSafeHeaderValue v = true) (response : Response)
    (timingUs : Option Nat) :
    ∀ e ∈ sentEntries (gate lib serverHeader response).1 timingUs, Clean e := by
  have start := startHeaders_clean named
  have bare : ∀ e ∈ (refused serverHeader).headers.entries, Clean e := start
  have parts {out : Response} (headers : ∀ e ∈ out.headers.entries, Clean e)
      (cookies : ∀ cookie ∈ out.cookies, cookie.validationError = none) :
      ∀ e ∈ sentEntries out timingUs, Clean e := by
    intro e mem
    rw [sentEntries, allEntries] at mem
    rcases List.mem_append.mp mem with mem | timing
    · rcases List.mem_append.mp mem with header | cookie
      · exact headers e header
      · obtain ⟨value, among, rfl⟩ := List.mem_map.mp cookie
        obtain ⟨c, here, rfl⟩ := List.mem_map.mp among
        exact clean_named (by decide) (cookie_safe (cookies c here))
    · obtain ⟨value, among, rfl⟩ := List.mem_map.mp timing
      cases timingUs with
      | none => cases among
      | some us =>
          rw [List.mem_singleton.mp among]
          exact clean_named (by decide) (serverTiming_safe us)
  have generic : ∀ e ∈ sentEntries (refused serverHeader) timingUs, Clean e :=
    parts bare fun cookie mem => by cases mem
  rw [gate]
  split
  · exact generic
  · rename_i headers ran
    split
    · exact generic
    · rename_i none_
      exact parts (gateHeaders_clean lowers start ran) (List.findSome?_eq_none_iff.mp none_)

theorem sent_clean {entries : List Bridge.Entry} (clean : ∀ e ∈ entries, Clean e) :
    sent (entries.map engineHeader) = entries.map wireField := by
  have all : (entries.map engineHeader).filter sendable = entries.map engineHeader := by
    rw [List.filter_eq_self, List.forall_mem_map]
    exact fun e mem => (clean e mem).sendable
  rw [sent, all, List.map_map]
  rfl

/-- Whatever the handler answers, the client of a one-shot answer reads one response: the status,
every field that the gate let through, in order and by its name, between the engine's own, and the
content. -/
theorem fields_reach_client (lowers : Lowers lib)
    (named : ∀ v, serverHeader = some v → isSafeHeaderValue v = true) {response out : Response}
    (gated : (gate lib serverHeader response).1 = out) (low : 200 ≤ out.status)
    (high : out.status ≤ 599) (timingUs : Option Nat) {view : Bytes}
    (room : headerListBytes out.headers.entries (out.cookies.map SetCookie.toHeaderValue)
      (timingUs.map serverTiming) ≤ view.length)
    (small : headerListBytes out.headers.entries (out.cookies.map SetCookie.toHeaderValue)
      (timingUs.map serverTiming) < 2 ^ 31)
    (few : (sentEntries out timingUs).length ≤ 1024)
    (env : Engine.Env) (gmtime : Nat → Tm) (r : Engine.Reactor) (id : Nat) {loc : Engine.ReqLoc}
    (running : r.running) (found : r.findReq id = some loc) :
    ∃ view' pos headers wire,
      encodeHeaderList out.headers.entries (out.cookies.map SetCookie.toHeaderValue)
        (timingUs.map serverTiming) view = some (view', pos) ∧
      decodeHeaderList (payload view') = some headers ∧
      (r.respond (dated env gmtime) id out.status.toNat headers out.bodyBytes).queue = r.queue ++
        [⟨loc.connId, ⟨.request id, .whole, wire⟩, loc.keepAlive, true, none⟩] ∧
      readResponse loc.isHead wire = some (⟨out.status.toNat,
        [dateField (gmtime r.clock)] ++ (sentEntries out timingUs).map wireField ++
          (if Engine.bodyless out.status.toNat then [] else [lengthField out.bodyBytes.length]) ++
          connection loc.keepAlive env.cfg.keepAliveHeaderSecs,
        contentOf loc.isHead out.status.toNat out.bodyBytes⟩, []) := by
  have clean : ∀ e ∈ sentEntries out timingUs, Clean e :=
    gated ▸ gate_clean lowers named response timingUs
  obtain ⟨view', pos, encoded, bound, read⟩ := decode_encoded _ _ _ room
  have crossed := read (Nat.lt_of_le_of_lt (Nat.sub_le pos 4) (Nat.lt_of_le_of_lt bound small))
  have low' : 200 ≤ out.status.toNat := by omega
  have high' : out.status.toNat ≤ 599 := by omega
  have reads := oneShot_reads (gmtime r.clock) low' high'
    ((sentEntries out timingUs).map engineHeader) loc.keepAlive env.cfg.keepAliveHeaderSecs
    loc.isHead out.bodyBytes (fun _ => rfl) []
  rw [List.append_nil, answerFields, sent_clean clean] at reads
  exact ⟨view', pos, _, _, encoded, crossed.trans (if_pos few),
    respondWith_queue (dated env gmtime) r id _ _ _ _ running found, reads⟩

/-- A hop-by-hop field, a mixed-case name, a padded value and a cookie. -/
def sampleResponse : Response where
  status := 200
  headers := (Table.empty.set (text "Connection") (text "close")).set (text "X-A") (text " b")
  cookies := [{ name := text "id", value := text "1" }]
  content := .body (ascii "hi")

theorem lowers_ascii : Lowers Api.asciiUnicode := by
  intro s u mem
  obtain ⟨v, -, rfl⟩ := List.mem_map.mp mem
  by_cases capital : 0x41 ≤ v ∧ v ≤ 0x5a
  · have small : ¬ (0x41 ≤ v + 0x20 ∧ v + 0x20 ≤ 0x5a) := by
      simp only [UInt16.le_iff_toNat_le, UInt16.toNat_add, UInt16.reduceToNat] at capital ⊢
      omega
    rw [lowerUnit, lowerUnit, if_pos capital, if_neg small]
  · rw [lowerUnit, lowerUnit, if_neg capital, if_neg capital]

/-- The headers that go out of it. -/
def sampleSent : Response :=
  { sampleResponse with
    headers := (Table.empty.set (text "x-server") (text "n")).set (text "x-a") (text " b") }

theorem fields_reach_client_cookie :
    ∃ view' pos headers wire,
      encodeHeaderList [(text "x-server", text "n"), (text "x-a", text " b")]
        [text "id=1; Path=/"] (some (text "app;dur=1.005")) (List.replicate 600 0) =
          some (view', pos) ∧
      decodeHeaderList (payload view') = some headers ∧
      (({ Engine.sampleConn with reqLoc := [(7, ⟨0, false, true⟩)] } : Engine.Reactor).respond
        (dated Engine.sampleEnv fun _ => ⟨1970, 0, 1, 0, 0, 0, 4⟩) 7 200 headers
        (ascii "hi")).queue = [⟨0, ⟨.request 7, .whole, wire⟩, true, true, none⟩] ∧
      readResponse false wire = some (⟨200,
        [dateField ⟨1970, 0, 1, 0, 0, 0, 4⟩] ++
          [⟨ascii "x-server", ascii "n"⟩, ⟨ascii "x-a", ascii "b"⟩,
            ⟨ascii "set-cookie", ascii "id=1; Path=/"⟩,
            ⟨ascii "server-timing", ascii "app;dur=1.005"⟩] ++
          [lengthField 2] ++ connection true (some 5),
        ascii "hi"⟩, []) := by
  have gated : (gate Api.asciiUnicode (some (text "n")) sampleResponse).1 = sampleSent := rfl
  have named : ∀ v, some (text "n") = some v → isSafeHeaderValue v = true := by
    intro v same
    exact Option.some.inj same ▸ by decide
  have wires : (sentEntries sampleSent (some 1005)).map wireField =
      [⟨ascii "x-server", ascii "n"⟩, ⟨ascii "x-a", ascii "b"⟩,
        ⟨ascii "set-cookie", ascii "id=1; Path=/"⟩,
        ⟨ascii "server-timing", ascii "app;dur=1.005"⟩] := by decide +kernel
  rw [← wires]
  exact fields_reach_client lowers_ascii named gated (by decide) (by decide) (some 1005)
    (by decide +kernel) (by decide +kernel) (by decide +kernel) Engine.sampleEnv
    (fun _ => ⟨1970, 0, 1, 0, 0, 0, 4⟩) { Engine.sampleConn with reqLoc := [(7, ⟨0, false, true⟩)] }
    7 rfl rfl

end Sent

end Wire

end NitroServer.Runner
