import WebSocketsLib.Lib.Reader
import WebSocketsLib.WebSocket.WsFrame
import Mathlib.Data.Nat.Notation

/-!
# The client's frames

What `WebSocketClient` does after the handshake (`websocket_client.cpp`): the frames that
`send_text`, `send_binary` and `send_close` write, and `read_frame` and `read_message`, which read
from the socket.
-/

namespace WebSocketsLib

/-- `struct WsInFrame`. -/
structure WsInFrame where
  opcode : UInt8 := 0
  fin : Bool := true
  payload : Bytes := []
  deriving DecidableEq, Repr

/-- `struct WsMessage`. -/
structure WsMessage where
  opcode : UInt8
  payload : Bytes
  deriving DecidableEq, Repr

/-- The exceptions of `read_frame` and `read_message`. -/
inductive ClientError
  /-- `read_any` meets the end of the stream. -/
  | eof
  | rsvBitsSet
  | invalidOpcode (opcode : UInt8)
  | frameTooLarge (len : UInt64)
  /-- A Close frame. -/
  | closed
  | unsupportedDataOpcode
  | expectedContinuation
  deriving DecidableEq, Repr

/-- `what()`. -/
def ClientError.what : ClientError → Bytes
  | .eof => bytes "Server closed connection"
  | .rsvBitsSet => bytes "RSV bits set (extensions not supported)"
  | .invalidOpcode opcode => bytes ("Invalid opcode: " ++ toString opcode.toNat)
  | .frameTooLarge len =>
    bytes ("Frame too large or parse desync: len=" ++ toString len.toNat)
  | .closed => bytes "Server closed connection"
  | .unsupportedDataOpcode => bytes "Protocol error: unsupported data opcode"
  | .expectedContinuation => bytes "Protocol error: expected continuation frame"

namespace WebSocketClient

/-! ### `send_text` -/

/-- `make_frame_text`, for the bytes that `std::random_device` gives. -/
def makeFrameText (maskBytes : Vector UInt8 4) (msg : Bytes) : Bytes :=
  let op : UInt8 := 0x81
  let len := UInt64.ofNat msg.length
  let maskbit : UInt8 := 0x80
  let lengthBytes : Bytes :=
    if len < 126 then
      [maskbit ||| len.toUInt8]
    else if len ≤ 0xFFFF then
      [maskbit ||| 126, (len >>> 8 &&& 0xFF).toUInt8, (len &&& 0xFF).toUInt8]
    else
      (maskbit ||| 127) ::
        ([7, 6, 5, 4, 3, 2, 1, 0] : List UInt64).map fun i => (len >>> (8 * i) &&& 0xFF).toUInt8
  op :: (lengthBytes ++ maskBytes.toList ++
    msg.mapIdx fun i byte => byte ^^^ maskBytes.get ⟨i % 4, Nat.mod_lt i (by decide)⟩)

/-- What `send_text` writes to the socket. -/
def sendText (stopped : Bool) (maskBytes : Vector UInt8 4) (msg : Bytes) : Bytes :=
  if stopped then [] else makeFrameText maskBytes msg

/-! ### `send_binary` and `send_close` -/

/-- The frame of `send_binary`, for the key that `std::random_device` gives. -/
def binaryOut (maskingKey : UInt32) (data : Bytes) : WsFrame :=
  { fin := true, opcode := 0x2, mask := true, maskingKey, payloadData := data,
    payloadLength := UInt64.ofNat data.length }

/-- What `send_binary` writes to the socket. -/
def sendBinary (stopped : Bool) (maskingKey : UInt32) (data : Bytes) : Bytes :=
  if stopped then [] else writeFrame (binaryOut maskingKey data)

/-- The frame of `send_close`. -/
def closeOut (maskingKey : UInt32) (code : UInt16) : WsFrame :=
  { fin := true, opcode := 0x8, mask := true, maskingKey, payloadLength := 2,
    payloadData := [(code >>> 8 &&& 0xFF).toUInt8, (code &&& 0xFF).toUInt8] }

/-- What `send_close` writes to the socket. -/
def sendClose (stopped : Bool) (maskingKey : UInt32) (code : UInt16) : Bytes :=
  if stopped then [] else writeFrame (closeOut maskingKey code)

/-! ### `read_frame` -/

/-- Reads from the socket. -/
abbrev ReadM := Reader UInt8 ClientError

def readAny (n : ℕ) : ReadM Bytes :=
  Reader.readExactly .eof n

/-- `MAX_FRAME_PAYLOAD`. -/
def maxFramePayload : UInt64 := 8 * 1024 * 1024

/-- The cases of the `switch` that do not throw. -/
def knownOpcode (opcode : UInt8) : Bool :=
  opcode == 0x0 || opcode == 0x1 || opcode == 0x2 || opcode == 0x8 || opcode == 0x9 ||
    opcode == 0xA

/-- `len`, from the 7-bit length on. -/
def readLength (len : UInt64) : ReadM UInt64 :=
  if len = 126 then do
    let ext ← readAny 2
    pure ((ext.getD 0 0).toUInt64 <<< 8 ||| (ext.getD 1 0).toUInt64)
  else if len = 127 then do
    let ext ← readAny 8
    pure (ext.foldl (fun len i => len <<< 8 ||| i.toUInt64) 0)
  else pure len

def readMaskKey (masked : Bool) : ReadM Bytes :=
  if masked then readAny 4 else pure [0, 0, 0, 0]

def readBody (len : UInt64) : ReadM Bytes :=
  if len > 0 then readAny len.toNat else pure []

/-- The part of `read_frame` behind the masking key. -/
def readPayload (fin masked : Bool) (opcode : UInt8) (len : UInt64) (maskKey : Bytes) :
    ReadM WsInFrame :=
  if len > maxFramePayload then throw (.frameTooLarge len)
  else do
    let payload ← readBody len
    let payload :=
      if masked then payload.mapIdx fun i b => b ^^^ maskKey.getD (i % 4) 0 else payload
    if opcode = 0x8 then throw .closed
    else pure { opcode, fin, payload }

def readFrame : ReadM WsInFrame := do
  let header ← readAny 2
  let fin := (header.getD 0 0 &&& 0x80) != 0
  let opcode := header.getD 0 0 &&& 0x0F
  let masked := (header.getD 1 0 &&& 0x80) != 0
  let len := (header.getD 1 0 &&& 0x7F).toUInt64
  let rsv := header.getD 0 0 &&& 0x70
  if rsv ≠ 0 then throw .rsvBitsSet
  else if !knownOpcode opcode then throw (.invalidOpcode opcode)
  else do
    let len ← readLength len
    let maskKey ← readMaskKey masked
    readPayload fin masked opcode len maskKey

/-! ### `read_message` -/

/-- The members that hold the message being assembled. -/
structure Assembly where
  assembling : Bool := false
  opcode : UInt8 := 0
  buf : Bytes := []
  deriving DecidableEq, Repr

/-- One round of the loop, from `read_frame` on: the exception, the message that is returned, or
`none` to go on. -/
def handleFrame (a : Assembly) (f : WsInFrame) : Except ClientError (Option WsMessage) × Assembly :=
  if f.opcode = 0x8 then (.error .closed, a)
  else if f.opcode = 0x9 then (.ok none, a)
  else if f.opcode = 0xA then (.ok none, a)
  else if !a.assembling then
    if f.opcode = 0x0 then (.ok none, a)
    else if f.opcode ≠ 0x1 ∧ f.opcode ≠ 0x2 then (.error .unsupportedDataOpcode, a)
    else if f.fin then
      -- `std::move` leaves the buffer to the next `clear`
      (.ok (some { opcode := f.opcode, payload := f.payload }),
        { assembling := false, opcode := f.opcode, buf := [] })
    else (.ok none, { assembling := true, opcode := f.opcode, buf := f.payload })
  else if f.opcode ≠ 0x0 then
    (.error .expectedContinuation, { a with assembling := false, buf := [] })
  else if f.fin then
    (.ok (some { opcode := a.opcode, payload := a.buf ++ f.payload }),
      { a with assembling := false, buf := [] })
  else (.ok none, { a with buf := a.buf ++ f.payload })

/-- The loop of `read_message`.  Every round reads at least two bytes, so `fuel` is the number of
bytes and one more. -/
def readMessageLoop : ℕ → Assembly → Bytes → Except ClientError WsMessage × Assembly × Bytes
  | 0, a, s => (.error .eof, a, s)
  | fuel + 1, a, s =>
    match readFrame.exec s with
    | (.error e, s) => (.error e, a, s)
    | (.ok f, s) =>
      match handleFrame a f with
      | (.error e, a) => (.error e, a, s)
      | (.ok (some m), a) => (.ok m, a, s)
      | (.ok none, a) => readMessageLoop fuel a s

/-- `read_message` on the bytes `s`: its outcome, the members and the bytes after it. -/
def readMessage (a : Assembly) (s : Bytes) : Except ClientError WsMessage × Assembly × Bytes :=
  readMessageLoop (s.length + 1) a s

/-! ### Calls in a row -/

/-- `n` calls of `read_frame` on the bytes `s`: their outcomes and the bytes after them. -/
def readFrames : ℕ → Bytes → List (Except ClientError WsInFrame) × Bytes
  | 0, s => ([], s)
  | n + 1, s =>
    let (outcome, s) := readFrame.exec s
    let (outcomes, s) := readFrames n s
    (outcome :: outcomes, s)

/-- `n` calls of `read_message`: their outcomes, the members and the bytes after them. -/
def readMessages : ℕ → Assembly → Bytes → List (Except ClientError WsMessage) × Assembly × Bytes
  | 0, a, s => ([], a, s)
  | n + 1, a, s =>
    let (outcome, a, s) := readMessage a s
    let (outcomes, a, s) := readMessages n a s
    (outcome :: outcomes, a, s)

end WebSocketClient

end WebSocketsLib
