/-
`src/engine/HttpParse.cpp`: the request-head parser.

`parseRequestHead raw headEnd` reads the bytes before `headEnd`, the offset of the
terminal CRLF CRLF; it never looks at what follows (`parseRequestHead_append`).
The `size_t pos` cursor of the field loop is the list of bytes still to be read.
-/

import NitroServer.Lib.Search
import NitroServer.Engine.WsCodec

namespace NitroServer.Engine

open NitroServer.Lib

/-- Space or horizontal tab. -/
def isBlank (b : UInt8) : Bool := b == 32 || b == 9

/-- `trimSv` / `uvTrim`: strip blanks at both ends. -/
def trim (s : Bytes) : Bytes :=
  ((s.dropWhile isBlank).reverse.dropWhile isBlank).reverse

/-- RFC 9112 §3: the request line is visible ASCII and single spaces. -/
def requestLineOk (line : Bytes) : Bool :=
  line.all fun b => !((b < 0x21 && b != 32) || 0x7f ≤ b)

/-- The target as the engine routes it: origin form and `*` as they are, absolute
form reduced to its path; `none` for anything else. -/
def reduceTarget (target : Bytes) : Option Bytes :=
  if 7 < target.length ∧
      (target.take 7 = ascii "http://" ∨ target.take 8 = ascii "https://") then
    let scheme := (findSub (ascii "://") target).getD 0 + 3
    match (target.drop scheme).findIdx? (· == 47) with
    | none => some [47]
    | some slash => some ((target.drop scheme).drop slash)
  else if target.head? ≠ some 47 ∧ target ≠ [42] then none
  else some target

/-- One field line, or `none` where the source gives up on the head. -/
def parseField (line : Bytes) : Option Header :=
  if line.any fun b => b < 0x20 && b != 9 then none
  else if line.head?.any isBlank then none -- obs-fold
  else match line.findIdx? (· == 58) with
    | none => none
    | some 0 => none
    | some colon =>
        if isBlank (line.getD (colon - 1) 0) then none
        else
          let name := line.take colon
          let value := trim (line.drop (colon + 1))
          if !Ws.validUtf8 value then none
          else if name.any fun b => 0x80 ≤ b then none
          else some ⟨name, value⟩

/-- The field lines up to the first empty one. `fuel` bounds the number of lines. -/
def parseFields : Nat → Bytes → Option (List Header)
  | 0, _ => some []
  | fuel + 1, rest =>
      match findSub crlf rest with
      | none =>
          if rest = [] then some []
          else (parseField rest).map fun h => [h]
      | some 0 => some []
      | some eol => do
          let h ← parseField (rest.take eol)
          let hs ← parseFields fuel (rest.drop (eol + 2))
          return h :: hs

/-- `parseHead` on the head slice (the terminal CRLF CRLF excluded). -/
def parseHead (head : Bytes) : ParsedHead :=
  let lineEnd := findSub crlf head
  let requestLine := match lineEnd with
    | none => head
    | some e => head.take e
  if !requestLineOk requestLine then {}
  else match requestLine.findIdx? (· == 32) with
    | none => {}
    | some sp1 =>
        match (requestLine.drop (sp1 + 1)).findIdx? (· == 32) with
        | none => {}
        | some targetLen =>
            if sp1 = 0 ∨ targetLen = 0 then {}
            else
              let (method, customMethod) := parseMethod (requestLine.take sp1)
              let target := (requestLine.drop (sp1 + 1)).take targetLen
              let version := requestLine.drop (sp1 + 1 + targetLen + 1)
              if version ≠ ascii "HTTP/1.1" ∧ version ≠ ascii "HTTP/1.0" then
                { method, customMethod, badVersion := true }
              else match reduceTarget target with
                | none => { method, customMethod, version }
                | some target =>
                    let fields := match lineEnd with
                      | none => some []
                      | some e => parseFields (head.length + 1) (head.drop (e + 2))
                    match fields with
                    | none => { method, customMethod, version, target }
                    | some headers =>
                        { method, customMethod, version, target, headers, ok := true }

/-- `parseRequestHead(raw, headEnd)`. -/
def parseRequestHead (raw : Bytes) (headEnd : Nat) : ParsedHead :=
  parseHead (raw.take headEnd)

/-- The parser reads nothing behind the head. -/
theorem parseRequestHead_append {raw : Bytes} {headEnd : Nat} (more : Bytes)
    (h : headEnd ≤ raw.length) :
    parseRequestHead (raw ++ more) headEnd = parseRequestHead raw headEnd := by
  unfold parseRequestHead
  rw [List.take_append_of_le_length h]

example :
    parseHead (ascii "GET http://h/p?q=1 HTTP/1.1\r\nHost: h\r\nX-A:  b ") =
      { method := .get, version := ascii "HTTP/1.1", target := ascii "/p?q=1",
        headers := [⟨ascii "Host", ascii "h"⟩, ⟨ascii "X-A", ascii "b"⟩], ok := true } := by
  decide +kernel

end NitroServer.Engine
