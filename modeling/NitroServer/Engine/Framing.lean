/-
The HTTP helpers at the top of `src/engine/UvReactor.cpp`: header lookup, the
request-framing verdict, keep-alive and upgrade decisions, chunk sizes and the
buffered chunked decoder, and the response heads the engine writes.

`uvDateHeader` reads the wall clock, so the date line is an argument of the head
builders. `decodeChunked` keeps the source's cursor as an offset into the buffer;
its `while` loop runs on fuel, one unit for each chunk and the buffer's length at
most.
-/

import NitroServer.Engine.HttpParse

namespace NitroServer.Engine

open NitroServer.Lib

/-! ### Header lookup -/

/-- `uvIequals`: equal up to ASCII case. -/
def uvIequals (a b : Bytes) : Bool := a.map lower == b.map lower

/-- `uvFindHeader`: the first field of that name. -/
def uvFindHeader (hs : List Header) (name : String) : Option Header :=
  hs.find? fun h => uvIequals h.name (ascii name)

/-- The trimmed elements of a comma-separated list, empty ones included. -/
def listTokens (v : Bytes) : List Bytes := (splitAtSep 44 v).map trim

/-- RFC 9110 §5.1 token. -/
def uvIsToken (name : Bytes) : Bool :=
  name ≠ [] && name.all fun b =>
    (97 ≤ b && b ≤ 122) || (65 ≤ b && b ≤ 90) || (48 ≤ b && b ≤ 57) ||
      (ascii "!#$%&'*+-.^_`|~").contains b

/-- No control byte but HTAB. -/
def uvIsSafeValue (value : Bytes) : Bool :=
  value.all fun b => !((b < 0x20 && b != 9) || b == 0x7f)

/-- Hop-by-hop and framing fields are the engine's to set. -/
def uvIsEngineOwnedHeader (name : Bytes) : Bool :=
  ["content-length", "connection", "transfer-encoding", "keep-alive", "upgrade", "trailer",
    "te"].any (fun o => uvIequals name (ascii o)) ||
  (6 < name.length && (name.take 6).map lower == ascii "proxy-")

/-! ### Response heads -/

/-- 1xx, 204 and 304 carry no content. -/
def bodyless (status : Nat) : Bool :=
  status == 204 || status == 304 || (100 ≤ status && status < 200)

def statusLine (status : Nat) : Bytes :=
  ascii "HTTP/1.1 " ++ decimal status ++ [32] ++ reasonPhrase status ++ crlf

/-- The caller's fields that may go out. -/
def callerFields (headers : List Header) : Bytes :=
  headers.flatMap fun h =>
    if uvIsEngineOwnedHeader h.name then []
    else if !uvIsToken h.name || !uvIsSafeValue h.value then []
    else h.name ++ ascii ": " ++ h.value ++ crlf

/-- The `Connection` line (with `Keep-Alive` when configured) and the blank line. -/
def connectionFields (keepAlive : Bool) (keepAliveSecs : Option Nat) : Bytes :=
  if keepAlive then
    match keepAliveSecs with
    | none => ascii "Connection: keep-alive\r\n\r\n"
    | some secs =>
        ascii "Connection: keep-alive\r\nKeep-Alive: timeout=" ++ decimal secs ++ crlf2
  else ascii "Connection: close\r\n\r\n"

/-- `uvBuildHead`. -/
def uvBuildHead (date : Bytes) (status : Nat) (headers : List Header) (contentLength : Nat)
    (keepAlive : Bool) (keepAliveSecs : Option Nat) : Bytes :=
  statusLine status ++ date ++ callerFields headers ++
    (if bodyless status then []
      else ascii "Content-Length: " ++ decimal contentLength ++ crlf) ++
    connectionFields keepAlive keepAliveSecs

/-- `uvBuildStreamHead`. -/
def uvBuildStreamHead (date : Bytes) (status : Nat) (headers : List Header)
    (keepAlive : Bool) (keepAliveSecs : Option Nat) : Bytes :=
  statusLine status ++ date ++ callerFields headers ++
    ascii "Transfer-Encoding: chunked\r\n" ++ connectionFields keepAlive keepAliveSecs

/-- `uvErrorResponse`: a short text/plain answer that closes. -/
def uvErrorResponse (date : Bytes) (status : Nat) (msg : String) (extra : List Header) :
    Bytes :=
  uvBuildHead date status (extra ++ [⟨ascii "Content-Type", ascii "text/plain"⟩])
    (ascii msg).length false (some 0) ++ ascii msg

/-! ### Keep-alive and upgrade -/

/-- Lower-case containment, `icontains` of the source. -/
def icontains (s : Bytes) (needle : String) : Bool :=
  (findSub (ascii needle) (s.map lower)).isSome

/-- `uvIsWebSocketUpgrade`. -/
def uvIsWebSocketUpgrade (head : ParsedHead) : Bool :=
  match uvFindHeader head.headers "upgrade", uvFindHeader head.headers "connection" with
  | some up, some cn => icontains up.value "websocket" && icontains cn.value "upgrade"
  | _, _ => false

/-- `uvClientWantsKeepAlive`. -/
def uvClientWantsKeepAlive (head : ParsedHead) : Bool :=
  let http10 := head.version == ascii "HTTP/1.0"
  match uvFindHeader head.headers "connection" with
  | some conn =>
      let toks := listTokens conn.value
      if toks.any fun t => uvIequals t (ascii "close") then false
      else if toks.any fun t => uvIequals t (ascii "keep-alive") then true
      else !http10
  | none => !http10

/-! ### The framing verdict -/

/-- A refusal: the status to answer with and why. -/
structure FramingVerdict where
  status : Nat
  reason : String
deriving DecidableEq, Repr

structure FramingScan where
  cl : Option Bytes := none
  te : Option Bytes := none
  hasHost : Bool := false
  dupHost : Bool := false
  dupCl : Bool := false
  dupTe : Bool := false

/-- The field loop of `uvFraming`. -/
def framingScan : List Header → FramingScan → Except FramingVerdict FramingScan
  | [], s => .ok s
  | h :: hs, s =>
      if uvIequals h.name (ascii "content-length") then
        if s.cl.any fun c => trim c != trim h.value then
          .error ⟨400, "conflicting content-length"⟩
        else framingScan hs { s with dupCl := s.dupCl || s.cl.isSome, cl := some h.value }
      else if uvIequals h.name (ascii "transfer-encoding") then
        framingScan hs { s with dupTe := s.dupTe || s.te.isSome, te := some h.value }
      else if uvIequals h.name (ascii "host") then
        framingScan hs { s with dupHost := s.dupHost || s.hasHost, hasHost := true }
      else framingScan hs s

/-- The coding loop: every element must be `chunked`, and only one may be. -/
def codingsVerdict : List Bytes → Bool → Except FramingVerdict Bool
  | [], seen => .ok seen
  | tok :: toks, seen =>
      if tok = [] then codingsVerdict toks seen
      else if uvIequals tok (ascii "chunked") then
        if seen then .error ⟨400, "repeated chunked coding"⟩ else codingsVerdict toks true
      else .error ⟨501, "unsupported transfer coding"⟩

/-- `uvFraming`: a refusal, or whether the body is chunked. -/
def uvFraming (head : ParsedHead) : Except FramingVerdict Bool := do
  let s ← framingScan head.headers {}
  if s.dupCl then throw ⟨400, "duplicate content-length"⟩
  if s.dupTe then throw ⟨400, "duplicate transfer-encoding"⟩
  if s.cl.isSome && s.te.isSome then throw ⟨400, "content-length with transfer-encoding"⟩
  let chunked ← match s.te with
    | none => pure false
    | some te =>
        if head.version = ascii "HTTP/1.0" then throw ⟨400, "transfer-encoding on http/1.0"⟩
        else do
          let seen ← codingsVerdict (listTokens te) false
          if seen then pure true else throw ⟨400, "empty transfer-encoding"⟩
  match s.cl with
  | none => pure ()
  | some cl =>
      if cl = [] ∨ 18 < cl.length then throw ⟨400, "bad content-length"⟩
      else if cl.all fun b => 48 ≤ b && b ≤ 57 then pure ()
      else throw ⟨400, "bad content-length"⟩
  if head.version = ascii "HTTP/1.1" then
    if !s.hasHost then throw ⟨400, "missing host header"⟩
    if s.dupHost then throw ⟨400, "duplicate host header"⟩
  return chunked

/-- `strtoll` on a value `uvFraming` has passed: the number its digits spell. -/
def strtoll (v : Bytes) : Nat :=
  (v.takeWhile fun b => 48 ≤ b && b ≤ 57).foldl (fun n b => n * 10 + (b.toNat - 48)) 0

/-- The declared body length, 0 without a `Content-Length`. -/
def declaredLength (head : ParsedHead) : Nat :=
  match uvFindHeader head.headers "content-length" with
  | some cl => strtoll cl.value
  | none => 0

/-! ### Chunked bodies -/

def hexDigit (b : UInt8) : Option Nat :=
  if 48 ≤ b ∧ b ≤ 57 then some (b.toNat - 48)
  else if 97 ≤ b ∧ b ≤ 102 then some (b.toNat - 97 + 10)
  else if 65 ≤ b ∧ b ≤ 70 then some (b.toNat - 65 + 10)
  else none

/-- The digit loop of `uvChunkSize`: the value, the number of digits and what
follows them. -/
def chunkDigits : Bytes → Nat → Nat → Nat × Nat × Bytes
  | [], size, digits => (size, digits, [])
  | b :: rest, size, digits =>
      match hexDigit b with
      | some d => chunkDigits rest (size * 16 + d) (digits + 1)
      | none => (size, digits, b :: rest)

/-- `uvChunkSize` on the size line; `none` for −1. More than fifteen digits are
refused (the source stops at the sixteenth). -/
def uvChunkSize (line : Bytes) : Option Nat :=
  let (size, digits, ext) := chunkDigits line 0 0
  if 15 < digits then none
  else if digits = 0 then none
  else if ext = [] then some size
  else if ext.head? = some 59 ∧ ext.all fun b => 0x20 ≤ b then some size
  else none

def kMaxTrailerBytes : Nat := 8 * 1024
def kMaxTrailerLines : Nat := 32

/-- What `decodeChunked` returns: 1 with the body and the end offset, 0, −1, −2. -/
inductive ChunkResult where
  | complete (body : Bytes) (stop : Nat)
  | needMore
  | malformed
  | overCap
deriving DecidableEq, Repr

section Decode

variable (buf : Bytes) (start : Nat) (maxBody : Nat)

/-- More raw bytes buffered than the cap and the framing slack allow. -/
def decodeOverCap : ChunkResult :=
  if maxBody + 1024 < buf.length - start then .overCap else .needMore

/-- Trailer lines from `t`; `pos` is where the trailer section starts. -/
def decodeTrailers (body : Bytes) (pos : Nat) : Nat → Nat → Nat → ChunkResult
  | 0, _, _ => .malformed
  | fuel + 1, t, lines =>
      match findSub crlf (buf.drop t) with
      | none =>
          if kMaxTrailerBytes < buf.length - pos then .malformed
          else decodeOverCap buf start maxBody
      | some 0 => .complete body (t + 2)
      | some e =>
          if kMaxTrailerLines < lines + 1 ∨ kMaxTrailerBytes < t + e - pos then .malformed
          else decodeTrailers body pos fuel (t + e + 2) (lines + 1)

/-- Chunks from `pos`, with `out` decoded so far. -/
def decodeChunks : Nat → Nat → Bytes → ChunkResult
  | 0, _, _ => .malformed
  | fuel + 1, pos, out =>
      match findSub crlf (buf.drop pos) with
      | none => decodeOverCap buf start maxBody
      | some eol =>
          match uvChunkSize ((buf.drop pos).take eol) with
          | none => .malformed
          | some 0 =>
              decodeTrailers buf start maxBody out (pos + eol + 2) (buf.length + 1)
                (pos + eol + 2) 0
          | some sz =>
              let data := pos + eol + 2
              if maxBody < out.length + sz then .overCap
              else if buf.length < data + sz + 2 then decodeOverCap buf start maxBody
              else if (buf.drop (data + sz)).take 2 ≠ crlf then .malformed
              else decodeChunks fuel (data + sz + 2) (out ++ (buf.drop data).take sz)

/-- `decodeChunked(buf, start, maxBody)`. -/
def decodeChunked : ChunkResult := decodeChunks buf start maxBody (buf.length + 1) start []

end Decode

example : decodeChunked (ascii "..4;x\r\nWiki\r\n0\r\nT: v\r\n\r\nrest") 2 100 =
    .complete (ascii "Wiki") 24 := by
  decide +kernel

end NitroServer.Engine
