/-
Transport-independent engine types (`src/engine/Common.h`, `EngineTypes.h`,
`Router.h`): byte strings, methods, headers, the server configuration, parsed
request heads and route entries.

Byte strings (`std::string`, `uint8_t*`) are `List UInt8`; `ascii` spells the
literals of the source. The router is a parameter here: everything in the engine
that matches a route is stated for an arbitrary `Router`, so a result holds for
whatever routes are registered. Configuration fields that no modelled function
reads (listen address, TLS material, admission caps) are left out.
-/

import Mathlib

namespace NitroServer.Engine

abbrev Bytes := List UInt8

/-- The bytes of an ASCII literal. -/
def ascii (s : String) : Bytes := s.toList.map fun c => c.toNat.toUInt8

/-- `std::to_string` on a non-negative number. -/
def decimal (n : Nat) : Bytes := ascii (Nat.repr n)

/-- A literal by its characters. The kernel has it from there without decoding UTF-8. -/
theorem ascii_ofList (cs : List Char) :
    ascii (String.ofList cs) = cs.map fun c => c.toNat.toUInt8 := by
  rw [ascii, String.toList_ofList]

theorem ascii_append (s t : String) : ascii (s ++ t) = ascii s ++ ascii t := by
  rw [ascii, String.toList_append, List.map_append, ascii, ascii]

theorem decimal_digits (n : Nat) :
    decimal n = (Nat.toDigits 10 n).map fun c => c.toNat.toUInt8 :=
  ascii_ofList _

def crlf : Bytes := [13, 10]

/-- The blank line that ends a head: CRLF CRLF. -/
def crlf2 : Bytes := [13, 10, 13, 10]

/-- ASCII lower case, as the source folds case (`a += 32` on `A`..`Z`). -/
def lower (b : UInt8) : UInt8 := if 65 ≤ b ∧ b ≤ 90 then b + 32 else b

inductive Method where
  | get | head | post | put | delete | patch | options | trace | all | custom
deriving DecidableEq, Repr

inductive ErrorKind where
  | none | requestTooLarge
deriving DecidableEq, Repr

inductive ServerEventKind where
  | handlerTimeout | clientError | clientDisconnect
deriving DecidableEq, Repr

structure Header where
  name : Bytes
  value : Bytes
deriving DecidableEq, Repr

structure RouteParam where
  name : Bytes
  value : Bytes
deriving DecidableEq, Repr

/-- `parseMethod`: the known tokens, anything else is `custom` with its token. -/
def parseMethod (token : Bytes) : Method × Bytes :=
  if token = ascii "GET" then (.get, [])
  else if token = ascii "HEAD" then (.head, [])
  else if token = ascii "POST" then (.post, [])
  else if token = ascii "PUT" then (.put, [])
  else if token = ascii "DELETE" then (.delete, [])
  else if token = ascii "PATCH" then (.patch, [])
  else if token = ascii "OPTIONS" then (.options, [])
  else if token = ascii "TRACE" then (.trace, [])
  else (.custom, token)

/-- `reasonPhrase`. -/
def reasonPhrase (status : Nat) : Bytes :=
  match status with
  | 100 => ascii "Continue"
  | 101 => ascii "Switching Protocols"
  | 200 => ascii "OK"
  | 201 => ascii "Created"
  | 202 => ascii "Accepted"
  | 204 => ascii "No Content"
  | 206 => ascii "Partial Content"
  | 301 => ascii "Moved Permanently"
  | 302 => ascii "Found"
  | 303 => ascii "See Other"
  | 304 => ascii "Not Modified"
  | 307 => ascii "Temporary Redirect"
  | 308 => ascii "Permanent Redirect"
  | 400 => ascii "Bad Request"
  | 401 => ascii "Unauthorized"
  | 403 => ascii "Forbidden"
  | 404 => ascii "Not Found"
  | 405 => ascii "Method Not Allowed"
  | 406 => ascii "Not Acceptable"
  | 408 => ascii "Request Timeout"
  | 409 => ascii "Conflict"
  | 410 => ascii "Gone"
  | 411 => ascii "Length Required"
  | 412 => ascii "Precondition Failed"
  | 413 => ascii "Content Too Large"
  | 414 => ascii "URI Too Long"
  | 415 => ascii "Unsupported Media Type"
  | 416 => ascii "Range Not Satisfiable"
  | 417 => ascii "Expectation Failed"
  | 422 => ascii "Unprocessable Content"
  | 426 => ascii "Upgrade Required"
  | 428 => ascii "Precondition Required"
  | 429 => ascii "Too Many Requests"
  | 431 => ascii "Request Header Fields Too Large"
  | 500 => ascii "Internal Server Error"
  | 501 => ascii "Not Implemented"
  | 502 => ascii "Bad Gateway"
  | 503 => ascii "Service Unavailable"
  | 504 => ascii "Gateway Timeout"
  | 505 => ascii "HTTP Version Not Supported"
  | _ =>
      if 500 ≤ status then ascii "Server Error"
      else if 400 ≤ status then ascii "Client Error"
      else if 300 ≤ status then ascii "Redirection"
      else if 200 ≤ status then ascii "Success"
      else ascii "Informational"

/-- `ServerConfig`, with its defaults. Times are milliseconds. -/
structure ServerConfig where
  maxBodyBytes : Int := 10 * 1024 * 1024
  defaultTimeoutMs : Int := 30000
  keepAliveTimeoutMs : Int := 5000
  keepAliveHeader : Bool := true
  maxRequestsPerConn : Int := 100
  headerTimeoutMs : Int := 0
  writeTimeoutMs : Int := 30000
  wsMaxBufferBytes : Int := 1048576
  streamMaxBufferBytes : Int := 4194304
  streamIdleTimeoutMs : Int := 300000
  wsCompression : Bool := true
  bodyTimeoutMs : Int := 0
  wsIdleTimeoutMs : Int := 60000
  maxConnectionAgeMs : Int := 0
  maxInFlightRequests : Int := 0
  http2 : Bool := true

/-- The server's body cap: `maxBodyBytes`, or 10 MiB when it is not positive. -/
def ServerConfig.serverMax (cfg : ServerConfig) : Nat :=
  if 0 < cfg.maxBodyBytes then cfg.maxBodyBytes.toNat else 10485760

/-- `keepAliveHeaderSecs`: the seconds of `Keep-Alive: timeout=N`, `none` (−1 in
the source) to omit the line. -/
def ServerConfig.keepAliveHeaderSecs (cfg : ServerConfig) : Option Nat :=
  if cfg.keepAliveHeader then some ((cfg.keepAliveTimeoutMs.toNat + 999) / 1000) else none

structure ParsedHead where
  method : Method := .get
  customMethod : Bytes := []
  target : Bytes := []
  version : Bytes := []
  headers : List Header := []
  ok : Bool := false
  badVersion : Bool := false
deriving DecidableEq, Repr

structure StaticResponse where
  status : Nat := 200
  headers : List Header := []
  body : Bytes := []
deriving DecidableEq, Repr

/-- `RouteEntry`; a negative `timeoutMs` or `maxBodyBytes` inherits the server's. -/
structure RouteEntry where
  method : Method := .get
  customMethod : Bytes := []
  pattern : Bytes := []
  timeoutMs : Int := -1
  isWebSocket : Bool := false
  streamBody : Bool := false
  maxBodyBytes : Int := -1
  wsProtocols : List Bytes := []
  staticResponse : Option StaticResponse := none
deriving DecidableEq, Repr

/-- The two router queries the reactor makes: `match` (the matched route with its
captures) and `allowedMethods` (for a 405). -/
structure Router where
  «match» : Method → Bytes → Bytes → Option (RouteEntry × List RouteParam)
  allowedMethods : Bytes → List Bytes

end NitroServer.Engine
