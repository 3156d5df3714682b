import WebSocketsLib.WebSocket.FrameBody
import WebSocketsLib.WebSocket.WsFrame

/-!
# `handle_parsed_frame`

What a frame does depends on the frame and on the `FrameBody` of the read loop only, so
`handleParsedFrame` returns the new `FrameBody` and the effects on the rest of the connection in
program order: the buffers given to `do_write` (which suspends the coroutine), the user callbacks,
and the calls of `close`.  `WebSocket/Connection.lean` executes these effects.
-/

namespace WebSocketsLib

/-- `struct WsHandlers`: which of the callbacks are installed. -/
structure WsHandlers where
  onOpen : Bool := false
  onMessage : Bool := false
  onClose : Bool := false
  deriving DecidableEq, Repr

/-- One effect of a coroutine on the connection. -/
inductive Effect
  /-- `co_await do_write(bytes)`. -/
  | doWrite (frame : Bytes)
  /-- `handlers_.on_message(.., msg)`. -/
  | onMessage (msg : Bytes)
  /-- `handlers_.on_close(.., code, reason)`, called directly. -/
  | onClose (code : UInt16) (reason : Bytes)
  /-- `close(code, reason)`. -/
  | close (code : UInt16) (reason : Bytes)
  deriving DecidableEq, Repr

/-- The frame that `send_close_with_reason` writes. -/
def closeFrame (code : UInt16) (reasonUtf8 : Bytes) : WsFrame :=
  let payload := buildClosePayload code reasonUtf8
  { fin := true, opcode := wsClose, mask := false, payloadData := payload,
    payloadLength := UInt64.ofNat payload.length }

/-- `send_close_with_reason`. -/
def sendCloseWithReason (code : UInt16) (reasonUtf8 : Bytes) : List Effect :=
  [.doWrite (writeFrame (closeFrame code reasonUtf8))]

/-- The frame that `send_pong` writes. -/
def pongFrame (payload : Bytes) : WsFrame :=
  { fin := true, opcode := wsPong, mask := false, payloadData := payload,
    payloadLength := UInt64.ofNat payload.length }

/-- `handle_ping_frame`, that is `send_pong`. -/
def handlePingFrame (payload : Bytes) : List Effect :=
  [.doWrite (writeFrame (pongFrame payload))]

/-- `handle_close_frame`. -/
def handleCloseFrame (payload : Bytes) : List Effect :=
  let (code, reason) : UInt16 × Bytes :=
    match payload with
    | c0 :: c1 :: reason => (c0.toUInt16 <<< 8 ||| c1.toUInt16, reason)
    | _ => (1000, [])
  sendCloseWithReason code reason ++ [.close code reason]

/-- The shape of the five error branches: send a Close frame and call `on_close`. -/
def reportError (handlers : WsHandlers) (code : UInt16) (reason : Bytes) : List Effect :=
  sendCloseWithReason code reason ++ if handlers.onClose then [.onClose code reason] else []

def fragmentedControl (handlers : WsHandlers) : List Effect :=
  reportError handlers 1002 (bytes "Fragmented control")

def newDataWhileAssembling (handlers : WsHandlers) : List Effect :=
  reportError handlers 1002 (bytes "New data while assembling")

def continuationWithoutInitialFrame (handlers : WsHandlers) : List Effect :=
  reportError handlers 1002 (bytes "Continuation without initial frame")

def tooBig (handlers : WsHandlers) : List Effect :=
  reportError handlers 1009 (bytes "Message too big")

/-- The common end of the data and the continuation branch: append the payload, and deliver the
message when the frame is final. -/
def appendAndDeliver (handlers : WsHandlers) (f : WsFrame) (fb : FrameBody) :
    FrameBody × List Effect :=
  match fb.append f.payloadData with
  | none => (fb.reset, tooBig handlers)
  | some fb =>
    if f.fin then (fb.reset, if handlers.onMessage then [.onMessage fb.msg] else [])
    else (fb, [])

/-- `handle_parsed_frame`. -/
def handleParsedFrame (handlers : WsHandlers) (f : WsFrame) (fb : FrameBody) :
    FrameBody × List Effect :=
  if f.opcode = wsPing then
    if !f.fin then (fb, fragmentedControl handlers)
    else (fb, handlePingFrame f.payloadData)
  else if f.opcode = wsPong then
    if !f.fin then (fb, fragmentedControl handlers)
    else (fb, [])
  else if f.opcode = wsClose then
    if !f.fin then (fb, fragmentedControl handlers)
    else (fb, handleCloseFrame f.payloadData)
  else if f.opcode = wsText ∨ f.opcode = wsBinary then
    if fb.assembling then (fb, newDataWhileAssembling handlers)
    else appendAndDeliver handlers f (fb.start f.opcode f.payloadLength.toNat)
  else if f.opcode = wsCont then
    -- the branch reports the error and goes on: there is no `co_return` in it
    let orphan := if !fb.assembling then continuationWithoutInitialFrame handlers else []
    let (fb, effects) := appendAndDeliver handlers f fb
    (fb, orphan ++ effects)
  else (fb, [])

/-- Frames handled one after another: the last `FrameBody` and the effects of each frame. -/
def handleFrames (handlers : WsHandlers) :
    FrameBody → List WsFrame → FrameBody × List (List Effect)
  | fb, [] => (fb, [])
  | fb, f :: fs =>
    let (fb', effects) := handleParsedFrame handlers f fb
    let (fb'', rest) := handleFrames handlers fb' fs
    (fb'', effects :: rest)

/-- `maxMsgSize`. -/
def maxMsgSize : ℕ := 10 * 1024 * 1024

end WebSocketsLib
