/-
`src/engine/WsCodec.h`: the RFC 6455 handshake hash, frame headers, server-side
frame encoding, close codes and the UTF-8 check.

`parseHeader` returns `none` where the source returns `false`, and so does not
tell "header incomplete" from "header malformed" either: its callers decide.
`validUtf8` walks the list where the source walks an index; the test
`i + need >= n` is the pattern match running out of bytes.
-/

import NitroServer.Engine.Types

namespace NitroServer.Engine.Ws

/-! ### Handshake hash -/

def handshakeGuid : Bytes := ascii "258EAFA5-E914-47DA-95CA-C5AB0DC85B11"

def rol32 (v : UInt32) (n : UInt32) : UInt32 := (v <<< n) ||| (v >>> (32 - n))

/-- Big-endian bytes of `n`, `k` of them. -/
def beBytes (n : Nat) : Nat → Bytes
  | 0 => []
  | k + 1 => (n / 256 ^ k % 256).toUInt8 :: beBytes n k

/-- Data, `0x80`, zeros up to 56 mod 64, then the bit length in 64 bits. -/
def sha1Pad (data : Bytes) : Bytes :=
  data ++ [0x80] ++ List.replicate ((119 - data.length % 64) % 64) 0 ++
    beBytes (data.length * 8) 8

def word (b : Bytes) : UInt32 :=
  b.foldl (fun acc x => (acc <<< 8) ||| x.toUInt32) 0

/-- The sixteen words of a block, extended to eighty. -/
def sha1Schedule (block : Bytes) : Array UInt32 :=
  let w0 := (Array.range 16).map fun i => word ((block.drop (4 * i)).take 4)
  (List.range 64).foldl (fun w k =>
    let i := k + 16
    w.push (rol32 (w[i - 3]! ^^^ w[i - 8]! ^^^ w[i - 14]! ^^^ w[i - 16]!) 1)) w0

structure Sha1State where
  a : UInt32
  b : UInt32
  c : UInt32
  d : UInt32
  e : UInt32

def sha1Round (w : Array UInt32) (s : Sha1State) (i : Nat) : Sha1State :=
  let fk : UInt32 × UInt32 :=
    if i < 20 then ((s.b &&& s.c) ||| ((~~~ s.b) &&& s.d), 0x5A827999)
    else if i < 40 then (s.b ^^^ s.c ^^^ s.d, 0x6ED9EBA1)
    else if i < 60 then ((s.b &&& s.c) ||| (s.b &&& s.d) ||| (s.c &&& s.d), 0x8F1BBCDC)
    else (s.b ^^^ s.c ^^^ s.d, 0xCA62C1D6)
  ⟨rol32 s.a 5 + fk.1 + s.e + fk.2 + w[i]!, s.a, rol32 s.b 30, s.c, s.d⟩

def sha1Block (h : Sha1State) (block : Bytes) : Sha1State :=
  let w := sha1Schedule block
  let r := (List.range 80).foldl (sha1Round w) h
  ⟨h.a + r.a, h.b + r.b, h.c + r.c, h.d + r.d, h.e + r.e⟩

def sha1 (data : Bytes) : Bytes :=
  let msg := sha1Pad data
  let h := (List.range (msg.length / 64)).foldl
    (fun h k => sha1Block h ((msg.drop (64 * k)).take 64))
    ⟨0x67452301, 0xEFCDAB89, 0x98BADCFE, 0x10325476, 0xC3D2E1F0⟩
  [h.a, h.b, h.c, h.d, h.e].flatMap fun x => beBytes x.toNat 4

def base64Alphabet : Bytes :=
  ascii "ABCDEFGHIJKLMNOPQRSTUVWXYZabcdefghijklmnopqrstuvwxyz0123456789+/"

def base64Digit (n : Nat) : UInt8 := base64Alphabet.getD (n % 64) 0

def base64Encode : Bytes → Bytes
  | [] => []
  | [a] =>
      let t := a.toNat * 65536
      [base64Digit (t / 262144), base64Digit (t / 4096), 61, 61]
  | [a, b] =>
      let t := a.toNat * 65536 + b.toNat * 256
      [base64Digit (t / 262144), base64Digit (t / 4096), base64Digit (t / 64), 61]
  | a :: b :: c :: rest =>
      let t := a.toNat * 65536 + b.toNat * 256 + c.toNat
      [base64Digit (t / 262144), base64Digit (t / 4096), base64Digit (t / 64),
        base64Digit t] ++ base64Encode rest

/-- RFC 6455 §1.3: `Sec-WebSocket-Accept` for a client key. -/
def acceptKey (clientKey : Bytes) : Bytes :=
  base64Encode (sha1 (clientKey ++ handshakeGuid))

/-! ### Frames -/

def kContinuation : Nat := 0x0
def kText : Nat := 0x1
def kBinary : Nat := 0x2
def kClose : Nat := 0x8
def kPing : Nat := 0x9
def kPong : Nat := 0xA

def isControl (opcode : Nat) : Bool := decide (0x8 ≤ opcode)

/-- The opcodes the engine speaks. -/
def knownOpcode (opcode : Nat) : Bool :=
  opcode == 0x0 || opcode == 0x1 || opcode == 0x2 || opcode == 0x8 || opcode == 0x9 ||
    opcode == 0xA

structure FrameHeader where
  fin : Bool
  rsv1 : Bool
  opcode : Nat
  masked : Bool
  length : Nat
  headerSize : Nat
  mask : Bytes
deriving DecidableEq, Repr

/-- The unsigned number the bytes spell, most significant first. -/
def beNat (b : Bytes) : Nat := b.foldl (fun acc x => acc * 256 + x.toNat) 0

/-- The payload length and the offset after the length field, from the seven-bit
length and the bytes behind the first two. -/
def parseLength (len7 : Nat) (rest : Bytes) : Option (Nat × Nat) :=
  if len7 = 126 then
    if rest.length < 2 then none else some (beNat (rest.take 2), 4)
  else if len7 = 127 then
    if rest.length < 8 then none
    else if rest.getD 0 0 &&& 0x80 ≠ 0 then none -- lengths ≥ 2^63 are forbidden
    else some (beNat (rest.take 8), 10)
  else some (len7, 2)

/-- `parseHeader`; `none` for an incomplete and for a malformed header alike. -/
def parseHeader (data : Bytes) (allowRsv1 : Bool) : Option FrameHeader :=
  match data with
  | b0 :: b1 :: rest =>
      let opcode := (b0 &&& 0x0f).toNat
      let masked := decide (b1 &&& 0x80 ≠ 0)
      if b0 &&& 0x30 ≠ 0 then none
      else if b0 &&& 0x40 ≠ 0 ∧ (!allowRsv1 || isControl opcode) then none
      else if !knownOpcode opcode then none
      else match parseLength (b1 &&& 0x7f).toNat rest with
        | none => none
        | some (length, pos) =>
            if isControl opcode ∧ b0 &&& 0x80 = 0 then none
            else if isControl opcode ∧ 125 < length then none
            else if masked then
              if data.length < pos + 4 then none
              else some ⟨decide (b0 &&& 0x80 ≠ 0), decide (b0 &&& 0x40 ≠ 0), opcode, masked,
                length, pos + 4, (data.drop pos).take 4⟩
            else some ⟨decide (b0 &&& 0x80 ≠ 0), decide (b0 &&& 0x40 ≠ 0), opcode, masked,
              length, pos, [0, 0, 0, 0]⟩
  | _ => none

/-- One server-side (never masked) frame. -/
def encodeFrame (opcode : Nat) (payload : Bytes) (fin : Bool) : Bytes :=
  let b0 : UInt8 := (if fin then 0x80 else 0x00) ||| (opcode.toUInt8 &&& 0x0f)
  let n := payload.length
  if n < 126 then [b0, n.toUInt8] ++ payload
  else if n ≤ 0xffff then [b0, 126] ++ beBytes n 2 ++ payload
  else [b0, 127] ++ beBytes n 8 ++ payload

/-- RFC 6455 §7.4: a close code a peer may put on the wire. -/
def validCloseCode (code : Nat) : Bool :=
  if 3000 ≤ code ∧ code ≤ 4999 then true
  else if code < 1000 ∨ 1014 < code then false
  else code != 1004 && code != 1005 && code != 1006

/-- A continuation byte. -/
def isTail (b : UInt8) : Bool := b &&& 0xc0 == 0x80

/-- `validUtf8`, by the class of the lead byte. The four-byte form is bounded
above through its lead byte only (`c > 0xf4`). -/
def validUtf8 : Bytes → Bool
  | [] => true
  | c :: rest =>
      if c < 0x80 then validUtf8 rest
      else if c &&& 0xe0 = 0xc0 then
        match rest with
        | d :: rest => decide (0xc2 ≤ c) && isTail d && validUtf8 rest
        | _ => false
      else if c &&& 0xf0 = 0xe0 then
        match rest with
        | d :: e :: rest =>
            let cp := (c &&& 0x0f).toNat * 4096 + (d &&& 0x3f).toNat * 64 + (e &&& 0x3f).toNat
            isTail d && isTail e && decide (0x800 ≤ cp ∧ ¬ (0xd800 ≤ cp ∧ cp ≤ 0xdfff)) &&
              validUtf8 rest
        | _ => false
      else if c &&& 0xf8 = 0xf0 then
        match rest with
        | d :: e :: f :: rest =>
            let cp := (c &&& 0x07).toNat * 262144 + (d &&& 0x3f).toNat * 4096 +
              (e &&& 0x3f).toNat * 64 + (f &&& 0x3f).toNat
            decide (c ≤ 0xf4) && isTail d && isTail e && isTail f && decide (0x10000 ≤ cp) &&
              validUtf8 rest
        | _ => false
      else false

end NitroServer.Engine.Ws
