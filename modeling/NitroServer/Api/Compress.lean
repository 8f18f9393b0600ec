/-
Response compression (`compress`, `middleware.dart`).

Header names differ in case between handlers and middlewares; `_deliver` writes them in lower case,
and the last of several spellings wins. Responses are compared as they are delivered.

* `find_normalized` — what a name is delivered with.
* `lastNamed_set`, `lastNamed_set_other` — a header that is set in lower case.
* `compress_frame` — what compression changes.
-/

import NitroServer.Api.Cookie
import NitroServer.Api.FormData

namespace NitroServer.Api

open Bridge (DartString text dartTrim)
open Engine (Bytes)
open Lib

/-! ### Responses -/

/-- `ResponseContext`. A response with a body has no writer, stream or file. -/
structure ResponseContext where
  status : Int := 200
  headers : Table DartString DartString := .empty
  body : Option Bytes := none
  cookies : List SetCookie := []

namespace Unicode

variable (lib : Unicode)

/-- `_headerValue`. -/
def headerValue (headers : Table DartString DartString) (name : DartString) : Option DartString :=
  (headers.entries.find? fun e => lib.toLowerCase e.1 = name).map Prod.snd

/-- `part.split(';').first.trim().toLowerCase()`. -/
def codingOf (part : DartString) : DartString :=
  lib.toLowerCase (dartTrim ((splitAtSep semicolonUnit part).headD []))

/-- `_acceptsCoding`. -/
def acceptsCoding (accept coding : DartString) : Bool :=
  (splitAtSep comma accept).any fun part => lib.codingOf part = coding

/-- The headers as `_deliver` writes them: names in lower case, the last one wins. -/
def normalized (headers : Table DartString DartString) : Table DartString DartString :=
  headers.entries.foldl (fun out e => out.set (lib.toLowerCase e.1) e.2) .empty

/-- What a list field lists, in lower case. -/
def listed (value : Option DartString) : List DartString :=
  ((splitAtSep comma (value.getD [])).map fun m => lib.toLowerCase (dartTrim m)).filter (· ≠ [])

end Unicode

/-! ### `compress` -/

def contentEncoding : DartString := text "content-encoding"

def vary : DartString := text "vary"

def acceptEncoding : DartString := text "accept-encoding"

/-- The options of `compress`, and its codecs at their levels. -/
structure Compression where
  minBytes : Int
  contentTypes : List DartString
  /-- `brotliAvailable()`. -/
  canBrotli : Bool
  brotli : Bytes → Bytes
  gzip : Bytes → Bytes

/-- `_reencoded`. -/
def reencoded (response : ResponseContext) (coding : DartString) (body : Bytes) :
    ResponseContext where
  status := response.status
  headers := (response.headers.set contentEncoding coding).set vary acceptEncoding
  body := some body
  cookies := response.cookies

/-- The middleware, on what `next` answered. -/
def compress (lib : Unicode) (o : Compression) (request : RequestContext)
    (response : ResponseContext) : ResponseContext :=
  match response.body with
  | none => response
  | some body =>
      if body.length < o.minBytes then response
      else if (lib.headerValue response.headers contentEncoding).isSome then response
      else
        let type := (lib.headerValue response.headers (text "content-type")).getD []
        if ¬ o.contentTypes.any fun p => p.isPrefixOf (lib.toLowerCase type) then response
        else
          let accept := (request.header acceptEncoding).getD []
          if o.canBrotli ∧ lib.acceptsCoding accept (text "br") then
            reencoded response (text "br") (o.brotli body)
          else if lib.acceptsCoding accept (text "gzip") then
            reencoded response (text "gzip") (o.gzip body)
          else response

/-! ### Names in any case -/

section Names

variable {lib : Unicode} {headers : Table DartString DartString} {name k v : DartString}
  {m : List (DartString × DartString)}

/-- What the last entry of a name in any case holds, or `found` without one. -/
def lastNamed (lib : Unicode) (name : DartString) (found : Option DartString)
    (m : List (DartString × DartString)) : Option DartString :=
  m.foldl (fun found e => if name = lib.toLowerCase e.1 then some e.2 else found) found

/-- What a name is delivered with. -/
theorem find_normalized (lib : Unicode) (headers : Table DartString DartString)
    (name : DartString) :
    (lib.normalized headers).find name = lastNamed lib name none headers.entries := by
  have loop : ∀ (m : List (DartString × DartString)) (out : Table DartString DartString),
      (m.foldl (fun out e => out.set (lib.toLowerCase e.1) e.2) out).find name =
        lastNamed lib name (out.find name) m := by
    intro m
    induction m with
    | nil => exact fun _ => rfl
    | cons e m ih =>
        intro out
        rw [List.foldl_cons, ih, lastNamed, lastNamed, List.foldl_cons, Table.find_set]
  exact loop headers.entries .empty

/-- No entry of the name. -/
theorem lastNamed_absent {found : Option DartString}
    (absent : ∀ e ∈ m, lib.toLowerCase e.1 ≠ name) : lastNamed lib name found m = found := by
  induction m with
  | nil => rfl
  | cons e m ih =>
      obtain ⟨here, behind⟩ := List.forall_mem_cons.mp absent
      rw [lastNamed, List.foldl_cons, if_neg (Ne.symm here)]
      exact ih behind

/-- The other names keep what they had. -/
theorem lastNamed_set_other {found : Option DartString} (other : name ≠ lib.toLowerCase k) :
    lastNamed lib name found (Assoc.set k v m) = lastNamed lib name found m := by
  induction m generalizing found with
  | nil => rw [Assoc.set, lastNamed, List.foldl_cons, if_neg other, lastNamed]
  | cons e m ih =>
      rw [Assoc.set]
      split
      · rename_i same
        rw [lastNamed, lastNamed, List.foldl_cons, List.foldl_cons, if_neg other,
          if_neg (same ▸ other)]
      · rw [lastNamed, lastNamed, List.foldl_cons, List.foldl_cons]
        exact ih

/-- The name that is set has the value, if it has no other spelling. -/
theorem lastNamed_set {found : Option DartString} (nodup : (m.map Prod.fst).Nodup)
    (single : ∀ e ∈ m, lib.toLowerCase e.1 = lib.toLowerCase k → e.1 = k) :
    lastNamed lib (lib.toLowerCase k) found (Assoc.set k v m) = some v := by
  induction m generalizing found with
  | nil => rw [Assoc.set, lastNamed, List.foldl_cons, if_pos rfl, List.foldl_nil]
  | cons e m ih =>
      obtain ⟨here, behind⟩ := List.forall_mem_cons.mp single
      obtain ⟨fresh, nodup⟩ := List.nodup_cons.mp nodup
      rw [Assoc.set]
      split
      · rename_i same
        rw [lastNamed, List.foldl_cons, if_pos rfl]
        refine lastNamed_absent fun e' mem alike => fresh ?_
        rw [same, ← behind e' mem alike]
        exact List.mem_map_of_mem mem
      · rename_i other
        rw [lastNamed, List.foldl_cons, if_neg fun alike => other (here alike.symm)]
        exact ih nodup behind

/-- The headers spell the name in one way. -/
def OneSpelling (lib : Unicode) (headers : Table DartString DartString) (name : DartString) :
    Prop :=
  ∀ e ∈ headers.entries, ∀ e' ∈ headers.entries,
    lib.toLowerCase e.1 = name → lib.toLowerCase e'.1 = name → e.1 = e'.1

theorem find_normalized_set (lower : lib.toLowerCase k = k) (single : OneSpelling lib headers k) :
    (lib.normalized (headers.set k v)).find k = some v := by
  rw [find_normalized, Table.set]
  by_cases there : k ∈ headers.entries.map Prod.fst
  · obtain ⟨e, mem, same⟩ := List.mem_map.mp there
    have spelled : lib.toLowerCase e.1 = k := by rw [same, lower]
    have set := @lastNamed_set lib k v headers.entries none headers.nodup fun e' mem' alike =>
      (single e' mem' e mem (alike.trans lower) spelled).trans same
    rwa [lower] at set
  · dsimp only
    rw [Assoc.set_of_absent v there, lastNamed, List.foldl_append, List.foldl_cons, List.foldl_nil,
      if_pos lower.symm]

theorem find_normalized_set_other (lower : lib.toLowerCase k = k) (other : name ≠ k) :
    (lib.normalized (headers.set k v)).find name = (lib.normalized headers).find name := by
  rw [find_normalized, find_normalized, Table.set]
  exact lastNamed_set_other (lower.symm ▸ other)

theorem mem_entries_set {e : DartString × DartString} (mem : e ∈ (headers.set k v).entries) :
    e = (k, v) ∨ e ∈ headers.entries := by
  have found := Table.find_eq_some_iff.mpr mem
  rw [Table.find_set] at found
  split at found
  · rename_i same
    exact .inl (Prod.ext same (Option.some.inj found).symm)
  · exact .inr (Table.find_eq_some_iff.mp found)

theorem oneSpelling_set (lower : lib.toLowerCase k = k) (other : k ≠ name)
    (single : OneSpelling lib headers name) : OneSpelling lib (headers.set k v) name := by
  have old : ∀ e ∈ (headers.set k v).entries, lib.toLowerCase e.1 = name →
      e ∈ headers.entries := by
    intro e mem spelled
    refine (mem_entries_set mem).resolve_left fun new => other ?_
    rw [← spelled, new, lower]
  exact fun e mem e' mem' spelled spelled' =>
    single e (old e mem spelled) e' (old e' mem' spelled') spelled spelled'

theorem oneSpelling_of_absent (none_ : lib.headerValue headers name = none) :
    OneSpelling lib headers name := by
  intro e mem e' _ spelled _
  have absent := List.find?_eq_none.mp (Option.map_eq_none_iff.mp none_) e mem
  exact absurd spelled (by simpa using absent)

end Names

/-! ### What compression changes -/

/-- The response is re-encoded: the rest of it stays. -/
structure Reencoded (lib : Unicode) (o : Compression) (response out : ResponseContext)
    (coding : DartString) : Prop where
  status : out.status = response.status
  cookies : out.cookies = response.cookies
  body : ∃ body, response.body = some body ∧
    (coding = text "br" ∧ out.body = some (o.brotli body) ∨
      coding = text "gzip" ∧ out.body = some (o.gzip body))
  headers : ∀ name, name ≠ contentEncoding → name ≠ vary →
    (lib.normalized out.headers).find name = (lib.normalized response.headers).find name
  encoding : (lib.normalized out.headers).find contentEncoding = some coding
  vary : OneSpelling lib response.headers vary →
    (∀ m ∈ lib.listed ((lib.normalized response.headers).find vary), m = acceptEncoding) →
    ∀ m, m ∈ lib.listed ((lib.normalized out.headers).find vary) ↔
      m ∈ lib.listed ((lib.normalized response.headers).find vary) ∨ m = acceptEncoding

section Compress

variable {lib : Unicode} {o : Compression} {response : ResponseContext}

theorem Unicode.Lawful.plain (lawful : lib.Lawful) {s : DartString}
    (low : s.all (fun u => u < 0x80 && lowerUnit u == u) = true) : lib.toLowerCase s = s := by
  rw [List.all_eq_true] at low
  have units : ∀ u ∈ s, u < 0x80 ∧ lowerUnit u = u := by
    intro u mem
    simpa using low u mem
  rw [lawful s fun u mem => (units u mem).1]
  exact (List.map_congr_left fun u mem => (units u mem).2).trans (List.map_id s)

theorem listed_acceptEncoding (lawful : lib.Lawful) :
    lib.listed (some acceptEncoding) = [acceptEncoding] := by
  have lower : lib.toLowerCase acceptEncoding = acceptEncoding := lawful.plain (by decide +kernel)
  have one : splitAtSep comma acceptEncoding = [acceptEncoding] := by decide +kernel
  have trimmed : dartTrim acceptEncoding = acceptEncoding := by decide +kernel
  have full : acceptEncoding ≠ [] := by decide +kernel
  rw [Unicode.listed, Option.getD_some, one, List.map_singleton, trimmed, lower]
  simp [full]

theorem reencoded_frame (lawful : lib.Lawful) {coding : DartString} {body coded : Bytes}
    (here : response.body = some body)
    (plain : lib.headerValue response.headers contentEncoding = none)
    (codec : coding = text "br" ∧ coded = o.brotli body ∨
      coding = text "gzip" ∧ coded = o.gzip body) :
    Reencoded lib o response (reencoded response coding coded) coding := by
  have lowerEncoding : lib.toLowerCase contentEncoding = contentEncoding :=
    lawful.plain (by decide +kernel)
  have lowerVary : lib.toLowerCase vary = vary := lawful.plain (by decide +kernel)
  have differ : contentEncoding ≠ vary := by decide +kernel
  refine ⟨rfl, rfl, ⟨body, here, ?_⟩, ?_, ?_, ?_⟩
  · exact codec.imp (fun h => ⟨h.1, congrArg some h.2⟩) fun h => ⟨h.1, congrArg some h.2⟩
  · intro name notEncoding notVary
    rw [reencoded, find_normalized_set_other lowerVary notVary,
      find_normalized_set_other lowerEncoding notEncoding]
  · rw [reencoded, find_normalized_set_other lowerVary differ]
    exact find_normalized_set lowerEncoding (oneSpelling_of_absent plain)
  · intro single only m
    rw [reencoded, find_normalized_set lowerVary (oneSpelling_set lowerEncoding differ single),
      listed_acceptEncoding lawful, List.mem_singleton]
    exact ⟨.inr, fun mem => mem.elim (only m) id⟩

theorem lists_of_accepts (lawful : lib.Lawful) {request : RequestContext} {coding : DartString}
    (full : coding ≠ [])
    (accepts : lib.acceptsCoding ((request.header acceptEncoding).getD []) coding = true) :
    ∃ line, request.header acceptEncoding = some line ∧
      ∃ part ∈ splitAtSep comma line, lib.codingOf part = coding := by
  rw [Unicode.acceptsCoding, List.any_eq_true] at accepts
  obtain ⟨part, mem, same⟩ := accepts
  have same : lib.codingOf part = coding := of_decide_eq_true same
  cases header : request.header acceptEncoding with
  | some line =>
      rw [header] at mem
      exact ⟨line, rfl, part, mem, same⟩
  | none =>
      rw [header] at mem
      have empty : part = [] := List.mem_singleton.mp mem
      have lower : lib.codingOf [] = [] := by
        rw [Unicode.codingOf]
        exact lawful.plain (s := []) rfl
      rw [empty, lower] at same
      exact absurd same.symm full

end Compress

/-- Compression changes only what it must: the response is the handler's, or it is re-encoded in a
coding that the request's `Accept-Encoding` lists, with the same status, cookies and other
headers. What `vary` lists is kept where it is nothing else. -/
theorem compress_frame {lib : Unicode} (lawful : lib.Lawful) (o : Compression)
    (request : RequestContext) (response : ResponseContext) :
    compress lib o request response = response ∨
      ∃ coding, Reencoded lib o response (compress lib o request response) coding ∧
        ∃ line, request.header acceptEncoding = some line ∧
          ∃ part ∈ splitAtSep comma line, lib.codingOf part = coding := by
  rw [compress]
  split
  · exact .inl rfl
  rename_i body here
  split
  · exact .inl rfl
  split
  · exact .inl rfl
  rename_i coded
  have plain : lib.headerValue response.headers contentEncoding = none := by
    simpa using coded
  dsimp only
  split
  · exact .inl rfl
  split
  · rename_i brotli
    exact .inr ⟨_, reencoded_frame lawful here plain (.inl ⟨rfl, rfl⟩),
      lists_of_accepts lawful (by decide +kernel) brotli.2⟩
  split
  · rename_i gzip
    exact .inr ⟨_, reencoded_frame lawful here plain (.inr ⟨rfl, rfl⟩),
      lists_of_accepts lawful (by decide +kernel) gzip⟩
  · exact .inl rfl

/-! ### A client that refuses a coding -/

/-- Text from ten bytes on, gzip only; the coded body stands for what zlib makes of it. -/
def gzipOnly : Compression where
  minBytes := 10
  contentTypes := [text "text/"]
  canBrotli := false
  brotli := id
  gzip := fun body => [0x1f, 0x8b] ++ body

def accepting (value : DartString) : RequestContext where
  headers := fun name => if name = acceptEncoding then some [value] else none

/-- An answer that depends on the origin. -/
def perOrigin : ResponseContext where
  headers := (Table.empty.set (text "Content-Type") (text "text/plain")).set (text "Vary")
    (text "Origin")
  body := some (List.replicate 20 97)

/-- The coding is applied, and caches are not told of the origin any more. -/
theorem refused_coding_applied :
    (asciiUnicode.normalized (compress asciiUnicode gzipOnly (accepting (text "gzip;q=0"))
        perOrigin).headers).find contentEncoding = some (text "gzip") ∧
      asciiUnicode.listed ((asciiUnicode.normalized perOrigin.headers).find vary) =
        [text "origin"] ∧
      asciiUnicode.listed ((asciiUnicode.normalized (compress asciiUnicode gzipOnly
        (accepting (text "gzip;q=0")) perOrigin).headers).find vary) = [acceptEncoding] := by
  decide +kernel

theorem compress_frame_gzip : ∃ coding, Reencoded asciiUnicode gzipOnly perOrigin
    (compress asciiUnicode gzipOnly (accepting (text "br, GZIP;q=0.5")) perOrigin) coding := by
  have coded : (compress asciiUnicode gzipOnly (accepting (text "br, GZIP;q=0.5"))
      perOrigin).body ≠ perOrigin.body := by decide +kernel
  obtain ⟨coding, frame, -⟩ := (compress_frame asciiUnicode_lawful gzipOnly
    (accepting (text "br, GZIP;q=0.5")) perOrigin).resolve_left fun same =>
      coded (congrArg ResponseContext.body same)
  exact ⟨coding, frame⟩

end NitroServer.Api
