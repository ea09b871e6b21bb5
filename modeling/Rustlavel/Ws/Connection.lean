/-
  A live WebSocket. `recv` reads frames until it has a whole message: it answers pings, puts fragments together,
  checks text as it arrives and closes the connection on an error.
-/

import Rustlavel.Ws.Frame

namespace Rustlavel.Ws

open Outcome Reading Utf8

/-! ## Closing -/

structure CloseFrame where
  code : Nat
  reason : String
  deriving DecidableEq

def WsError.closeCode : WsError → Nat
  | protocol _ => 1002
  | tooLarge _ _ => 1009
  | invalidUtf8 => 1007
  | idle => 1001
  | full => 1008
  | closed => 1006

def WsError.text : WsError → String
  | protocol message => "websocket protocol error: " ++ message
  | tooLarge size limit => s!"message of {size} bytes exceeds the {limit} byte limit"
  | invalidUtf8 => "text frame payload was not valid UTF-8"
  | idle => "peer stopped answering pings"
  | full => "peer is not reading fast enough"
  | closed => "the connection is closed"

def WsError.close (e : WsError) : CloseFrame := ⟨e.closeCode, e.text⟩

/-- `CloseCode::ABNORMAL`, which is never sent. -/
def CloseFrame.abnormal : CloseFrame := ⟨1006, ""⟩

def isSendable (code : Nat) : Bool :=
  if code = 1004 ∨ code = 1005 ∨ code = 1006 ∨ code = 1015 then false
  else (1000 ≤ code && code ≤ 1014) || (3000 ≤ code && code ≤ 4999)

def CloseFrame.parse : List UInt8 → Except WsError (Option CloseFrame)
  | [] => .ok none
  | [_] => .error (.protocol "close payload must be empty or at least two bytes")
  | a :: b :: rest =>
    let code := BigEndian.fromBytes [a, b]
    if ¬ isSendable code then .error (.protocol s!"close code {code} must not be sent on the wire")
    else
      match fromUtf8 rest with
      | some reason => .ok (some ⟨code, String.ofList reason⟩)
      | none => .error .invalidUtf8

/-! ## Messages -/

inductive Message where
  | text (body : String)
  | binary (bytes : List UInt8)
  | ping (bytes : List UInt8)
  | pong (bytes : List UInt8)
  | close (close : Option CloseFrame)
  deriving DecidableEq

/-- `Debug` of an opcode. -/
def OpCode.name : OpCode → String
  | continuation => "Continuation"
  | text => "Text"
  | binary => "Binary"
  | close => "Close"
  | ping => "Ping"
  | pong => "Pong"

def Message.fromData (opcode : OpCode) (payload : List UInt8) : Except WsError Message :=
  match opcode with
  | .text =>
    match fromUtf8 payload with
    | some cs => .ok (.text (String.ofList cs))
    | none => .error .invalidUtf8
  | .binary => .ok (.binary payload)
  | other => .error (.protocol (other.name ++ " is not a data frame"))

/-! ## The connection -/

structure Config where
  maxMessageSize : Nat
  maxFrameSize : Nat
  /-- Whether a silent connection is pinged. -/
  idleTimeout : Bool

structure WebSocket where
  input : Buffered UInt8
  timers : List (Option Nat)
  room : Option Nat
  outgoing : List Message
  config : Config
  /-- A message still arriving: its opcode, the bytes so far, and how many of them are checked as text. -/
  assembling : Option (OpCode × List UInt8 × Nat)
  awaitingPong : Bool
  closed : Bool
  closeFrame : Option CloseFrame
  received : Nat

inductive Reply where
  | frame (f : Frame)
  | ended
  | failed (e : WsError)
  /-- The timer went off; what was read stays in the buffer. -/
  | late
  deriving DecidableEq

/-- The loop of `read_frame`. -/
def readLoop (maxFrameSize : Nat) : Nat → Option Nat → Buffered UInt8 → Result Empty (Reply × Buffered UInt8)
  | 0, _, _ => .error .diverged
  | fuel + 1, budget, input =>
    match Frame.decode input.buffer .server maxFrameSize with
    | .ok (some (f, used)) => do
      let r ← input.drain used
      .ok (.frame f, r.2)
    | .ok none =>
      if budget = some 0 then .ok (.late, input)
      else
        let r := input.source.read 8192
        if r.1.isEmpty then .ok (.ended, { input with source := r.2 })
        else readLoop maxFrameSize fuel (budget.map (· - 1)) { buffer := input.buffer ++ r.1, source := r.2 }
    | .error (.error e) => .ok (.failed e, input)
    | .error .panic => .error .panic
    | .error .diverged => .error .diverged

def textSoFarIsValid (bytes : List UInt8) (checked : Nat) : Result Empty (Bool × Nat) :=
  if bytes.length < checked then .error .panic
  else
    match validity (bytes.drop checked) with
    | .valid => .ok (true, bytes.length)
    | .unfinished upTo => .ok (true, checked + upTo)
    | .invalid _ => .ok (false, checked)

namespace WebSocket

variable (ws : WebSocket)

/-- Queue a message; `false` if nobody takes it. -/
def send (message : Message) : Bool × WebSocket :=
  if ws.room = some 0 then (false, ws)
  else (true, { ws with outgoing := ws.outgoing ++ [message], room := ws.room.map (· - 1) })

def markClosed (close : Option CloseFrame) : WebSocket :=
  { ws with closed := true, closeFrame := ws.closeFrame.or close }

def fail (e : WsError) : WebSocket := (ws.send (.close (some e.close))).2.markClosed (some e.close)

def readFrame (budget : Option Nat) : Result Empty (Reply × WebSocket) := do
  let r ← readLoop ws.config.maxFrameSize (ws.input.source.pending.length + 1) budget ws.input
  .ok (r.1, { ws with input := r.2 })

/-- The loop of `next_frame`: a peer that is silent is pinged once. -/
def nextFrameLoop : List (Option Nat) → WebSocket → Result Empty (Reply × WebSocket)
  | [], ws => do
    let r ← ws.readFrame none
    .ok (r.1, { r.2 with timers := [] })
  | budget :: timers, ws => do
    let r ← ws.readFrame budget
    if r.1 ≠ .late then .ok (r.1, { r.2 with timers := timers })
    else if r.2.awaitingPong then .ok (.failed .idle, { r.2 with timers := timers })
    else
      let s := send { r.2 with awaitingPong := true } (.ping [])
      if s.1 then nextFrameLoop timers s.2 else .ok (.ended, { s.2 with timers := timers })

def nextFrame : Result Empty (Reply × WebSocket) :=
  if ws.config.idleTimeout then nextFrameLoop ws.timers ws else ws.readFrame none

variable (f : Frame) (opcode : OpCode)

def deliver (payload : List UInt8) : Option Message × WebSocket :=
  match Message.fromData opcode payload with
  | .ok message => (some message, { ws with received := ws.received + 1 })
  | .error e => (none, ws.fail e)

/-! ## Frames as they come

Each of these is a case of the loop of `recv`: `some r` returns `r`, `none` goes on. -/

def onPing : Option (Option Message) × WebSocket :=
  let s := ws.send (.pong f.payload)
  if s.1 then (none, s.2) else (some none, s.2.markClosed (some .abnormal))

def onClose : Option (Option Message) × WebSocket :=
  match CloseFrame.parse f.payload with
  | .error e => (some none, ws.fail e)
  | .ok peer =>
    let echo := peer.getD ⟨1000, ""⟩
    (some none, (ws.send (.close (some echo))).2.markClosed (peer.or (some ⟨1005, ""⟩)))

def checkSoFar (bytes : List UInt8) (checked : Nat) : Result Empty (Bool × Nat) :=
  if opcode = .text then textSoFarIsValid bytes checked else .ok (true, checked)

def keep (bytes : List UInt8) (checked : Nat) : Result Empty (Option (Option Message) × WebSocket) := do
  let r ← checkSoFar opcode bytes checked
  if r.1 then .ok (none, { ws with assembling := some (opcode, bytes, r.2) })
  else .ok (some none, ws.fail .invalidUtf8)

def onData : Result Empty (Option (Option Message) × WebSocket) :=
  if ws.assembling.isSome then
    .ok (some none, ws.fail (.protocol "a new data frame arrived while a fragmented message was still open"))
  else if f.fin then
    let r := ws.deliver f.opcode f.payload
    .ok (some r.1, r.2)
  else ws.keep f.opcode f.payload 0

def onContinuation : Result Empty (Option (Option Message) × WebSocket) :=
  match ws.assembling with
  | none => .ok (some none, ws.fail (.protocol "a continuation frame arrived with no message to continue"))
  | some (opcode, assembled, checked) =>
    let ws := { ws with assembling := none }
    let total := assembled.length + f.payload.length
    if ws.config.maxMessageSize < total then
      .ok (some none, ws.fail (.tooLarge total ws.config.maxMessageSize))
    else if f.fin then
      let r := ws.deliver opcode (assembled ++ f.payload)
      .ok (some r.1, r.2)
    else ws.keep opcode (assembled ++ f.payload) checked

def onFrame : Result Empty (Option (Option Message) × WebSocket) :=
  match f.opcode with
  | .ping => .ok (ws.onPing f)
  | .pong => .ok (none, ws)
  | .close => .ok (ws.onClose f)
  | .text | .binary => ws.onData f
  | .continuation => ws.onContinuation f

def recvLoop : Nat → WebSocket → Result Empty (Option Message × WebSocket)
  | 0, _ => .error .diverged
  | fuel + 1, ws =>
    if ws.closed then .ok (none, ws)
    else do
      let r ← ws.nextFrame
      match r.1 with
      | .ended | .late => .ok (none, r.2.markClosed (some .abnormal))
      | .failed e => .ok (none, r.2.fail e)
      | .frame f => do
        let s ← onFrame { r.2 with awaitingPong := false } f
        match s.1 with
        | some message => .ok (message, s.2)
        | none => recvLoop fuel s.2

/-- `recv`: the next message, or that there is none. -/
def recv : Result Empty (Option Message × WebSocket) := recvLoop (ws.input.all.length + 1) ws

/-- Several calls of `recv`. -/
def recvs : Nat → WebSocket → Result Empty (List (Option Message) × WebSocket)
  | 0, ws => .ok ([], ws)
  | n + 1, ws => do
    let r ← ws.recv
    let s ← recvs n r.2
    .ok (r.1 :: s.1, s.2)

end WebSocket

end Rustlavel.Ws
