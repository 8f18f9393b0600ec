/-
The WebSocket half of `UvReactor.cpp`: `wsHandshake`, `wsProcess`, `wsSend` and
`wsClose`.

`wsFrame` is one turn of the loop of `wsProcess`; its Boolean says whether the
loop goes on. A turn that goes on has consumed a whole frame, so the loop runs on
the length of the buffer (`wsProcess_eq` is the loop without fuel). `malloc` is
taken to succeed.
-/

import NitroServer.Engine.Conn

namespace NitroServer.Engine

open NitroServer.Lib

namespace Ws

/-- RFC 6455 §4.2.1: 16 bytes in base64, 24 characters with `==` padding. -/
def validKey (k : Bytes) : Bool :=
  k.length == 24 && k.getD 22 0 == 61 && k.getD 23 0 == 61 &&
    (k.take 22).all fun ch =>
      (65 ≤ ch && ch ≤ 90) || (97 ≤ ch && ch ≤ 122) || (48 ≤ ch && ch ≤ 57) || ch == 43 ||
        ch == 47

/-- A reserved bit, an unknown opcode or an unmasked client frame. -/
def badStart (deflate : Bool) (b0 b1 : UInt8) : Bool :=
  (if deflate then b0 &&& 0x30 != 0 else b0 &&& 0x70 != 0) ||
    !knownOpcode (b0 &&& 0x0f).toNat || b1 &&& 0x80 == 0

/-- RFC 6455 §5.5: a control frame that is fragmented or longer than 125 bytes. -/
def badControl (b0 b1 : UInt8) : Bool :=
  isControl (b0 &&& 0x0f).toNat && (b0 &&& 0x80 == 0 || 125 < b1 &&& 0x7f)

/-- `payload[i] ^ mask[i & 3]`. -/
def unmask (mask payload : Bytes) : Bytes :=
  payload.mapIdx fun i b => b ^^^ mask.getD (i % 4) 0

/-- The code a close frame's payload asks to close with. -/
def closeCode (payload : Bytes) : Nat :=
  match payload with
  | [] => 1005
  | [_] => 1002
  | hi :: lo :: reason =>
      let code := hi.toNat * 256 + lo.toNat
      if !validCloseCode code then 1002
      else if !validUtf8 reason then 1007
      else code

end Ws

variable (env : Env)

namespace Reactor

/-! ### Frames -/

/-- The complete message goes to the runner, and the next one may start. -/
def wsEmit (r : Reactor) (opcode : Nat) : Reactor :=
  let c := r.conn
  ((r.log [.track c.id c.wsMsg]).emitTo c.wsEmitter fun sink =>
    [.emitWsMessage sink c.id c.wsMsg opcode (if c.wsMsgCompressed then 1 else 0)]).setConn
      { c with wsMsg := [], wsMsgOpcode := none, wsMsgCompressed := false }

/-- Cap, then on the last fragment the UTF-8 check and the emit. -/
def wsReassembled (r : Reactor) (fin : Bool) (opcode : Nat) : Reactor × Bool :=
  if env.cfg.serverMax < r.conn.wsMsg.length then (r.wsCloseConn env 1009, false)
  else if !fin then (r, true)
  else if opcode = Ws.kText ∧ ¬ r.conn.wsMsgCompressed ∧ ¬ Ws.validUtf8 r.conn.wsMsg then
    (r.wsCloseConn env 1007, false)
  else (r.wsEmit opcode, true)

/-- A data frame or continuation: reassemble across fragments (RFC 6455 §5.4). -/
def wsData (r : Reactor) (h : Ws.FrameHeader) (payload : Bytes) : Reactor × Bool :=
  if h.opcode = Ws.kText ∨ h.opcode = Ws.kBinary then
    match r.conn.wsMsgOpcode with
    | some _ => (r.wsCloseConn env 1002, false) -- before the previous one's FIN
    | none =>
        (r.setConn { r.conn with
          wsMsgOpcode := some h.opcode, wsMsgCompressed := h.rsv1, wsMsg := payload })
          |>.wsReassembled env h.fin h.opcode
  else
    match r.conn.wsMsgOpcode with
    | none => (r.wsCloseConn env 1002, false) -- nothing to continue
    | some opcode =>
        (r.setConn { r.conn with wsMsg := r.conn.wsMsg ++ payload })
          |>.wsReassembled env h.fin opcode

/-- What a whole frame does. -/
def wsHandle (r : Reactor) (h : Ws.FrameHeader) (payload : Bytes) : Reactor × Bool :=
  if h.opcode = Ws.kPing then
    (r.writeAnswer env [⟨.session, .raw, Ws.encodeFrame Ws.kPong payload true⟩] true false, true)
  else if h.opcode = Ws.kPong then (r, true)
  else if h.opcode = Ws.kClose then (r.wsCloseConn env (Ws.closeCode payload), false)
  else r.wsData env h payload

/-- One turn of `wsProcess`. -/
def wsFrame (r : Reactor) : Reactor × Bool :=
  match r.conn.buf with
  | b0 :: b1 :: _ =>
      if Ws.badStart r.conn.deflate b0 b1 then (r.wsCloseConn env 1002, false)
      else if Ws.badControl b0 b1 then (r.wsCloseConn env 1002, false)
      else match Ws.parseHeader r.conn.buf r.conn.deflate with
        | none => (r, false) -- "header not fully buffered yet"
        | some h =>
            if ¬ Ws.isControl h.opcode ∧ env.cfg.serverMax < h.length then
              (r.wsCloseConn env 1009, false)
            else if r.conn.buf.length < h.headerSize + h.length then (r, false)
            else
              let payload := Ws.unmask h.mask ((r.conn.buf.drop h.headerSize).take h.length)
              (r.setConn { r.conn with buf := r.conn.buf.drop (h.headerSize + h.length) })
                |>.wsHandle env h payload
  | _ => (r, false)

/-- The loop of `wsProcess`. -/
def wsFrames : Nat → Reactor → Reactor
  | 0, r => r
  | fuel + 1, r =>
      if r.conn.closing ∨ r.conn.wsClosing then r
      else match r.wsFrame env with
        | (r', true) => wsFrames fuel r'
        | (r', false) => r'

def wsProcess (r : Reactor) : Reactor := r.wsFrames env (r.conn.buf.length + 1)

/-! ### Handshake -/

/-- The first protocol of the route that the client offered. -/
def wsProtocol (route : RouteEntry) (offer : Bytes) : Option Bytes :=
  route.wsProtocols.find? fun want => want ≠ [] && (listTokens offer).contains want

/-- The 101 head. -/
def wsShake (key : Bytes) (deflate : Bool) (protocol : Option Bytes) : Bytes :=
  ascii ("HTTP/1.1 101 Switching Protocols\r\nUpgrade: websocket\r\n" ++
    "Connection: Upgrade\r\nSec-WebSocket-Accept: ") ++ Ws.acceptKey key ++ crlf ++
  (if deflate then
    ascii ("Sec-WebSocket-Extensions: permessage-deflate; " ++
      "server_no_context_takeover; client_no_context_takeover\r\n")
    else []) ++
  (match protocol with
    | some p => ascii "Sec-WebSocket-Protocol: " ++ p ++ crlf
    | none => []) ++ crlf

/-- The connection is a session from here on, and stays on its sink. -/
def wsEnter (r : Reactor) : Reactor :=
  { r with
    conn := { r.conn with ws := true, wsEmitter := r.emitter }
    wsConnLoop := r.conn.id :: r.wsConnLoop.filter (· ≠ r.conn.id) }

/-- The 101 answer and the switch to WebSocket mode. -/
def wsOpen (r : Reactor) (head : ParsedHead) (route : RouteEntry) (params : List RouteParam)
    (path query key : Bytes) (protocol : Option Bytes) : Reactor :=
  let ext := uvFindHeader head.headers "sec-websocket-extensions"
  let deflate := env.cfg.wsCompression &&
    ext.any fun e => (findSub (ascii "permessage-deflate") e.value).isSome
  let r := (r.setConn { r.conn with deflate }).log [.upgrade]
  let r := (r.writeAnswer env [⟨.session, .whole, wsShake key deflate protocol⟩] true false).wsEnter
  (r.emitTo r.emitter fun sink =>
    [.emitHead sink ⟨r.conn.id, head.method, head.customMethod, path, query, head.headers, 0,
      false, true, route.pattern, params⟩]).wsProcess env -- frames already buffered

/-- `wsHandshake`. -/
def wsHandshake (r : Reactor) (head : ParsedHead) (route : RouteEntry)
    (params : List RouteParam) (path query : Bytes) : Reactor :=
  match uvFindHeader head.headers "sec-websocket-key" with
  | none => r.refuse env .engine 400
  | some key =>
      if !Ws.validKey (trim key.value) then r.refuse env .engine 400
      else if (uvFindHeader head.headers "sec-websocket-version").all
          fun v => trim v.value != ascii "13" then
        r.refuseText env 426 "websocket not supported"
          [⟨ascii "Sec-WebSocket-Version", ascii "13"⟩]
      else if route.wsProtocols = [] then
        r.wsOpen env head route params path query key.value none
      else match uvFindHeader head.headers "sec-websocket-protocol" with
        | none => r.wsOpen env head route params path query key.value none
        | some offer =>
            if trim offer.value = [] then
              r.wsOpen env head route params path query key.value none
            else match wsProtocol route offer.value with
              | none => r.refuse env .engine 400 -- offered, but nothing the route accepts
              | some p => r.wsOpen env head route params path query key.value (some p)

/-! ### Outbound -/

/-- `wsSend` for this connection: a frame into the inbox. -/
def wsSend (r : Reactor) (payload : Bytes) (binary compressed : Bool) : Reactor :=
  if ¬ r.running ∨ r.conn.id ∉ r.wsConnLoop then r
  else
    let frame := Ws.encodeFrame (if binary then Ws.kBinary else Ws.kText) payload true
    let frame := if compressed then
        match frame with
        | b :: rest => (b ||| 0x40) :: rest -- RSV1: the runner already deflated
        | [] => []
      else frame
    r.pushWrite ⟨r.conn.id, ⟨.session, .raw, frame⟩, true, false, none⟩

/-- `wsClose` for this connection: a close frame into the inbox, and no send after it. -/
def wsClose (r : Reactor) (code : Nat) : Reactor :=
  if ¬ r.running ∨ r.conn.id ∉ r.wsConnLoop then r
  else
    let r := { r with wsConnLoop := r.wsConnLoop.filter (· ≠ r.conn.id) }
    let frame := Ws.encodeFrame Ws.kClose (Ws.beBytes code 2) true
    r.pushWrite ⟨r.conn.id, ⟨.session, .raw, frame⟩, false, true, none⟩

end Reactor

end NitroServer.Engine
