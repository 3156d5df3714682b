import WebSocketsLib.Bytes
import Mathlib.Data.Option.Basic

/-!
# Frames and their encoding

`WsFrame` and `writeFrame` are `include/websocket/WsFrame.h`.  `decodeFrame` is the part of the
body of `do_read_loop` (`include/websocket/WebSocket.h`) that reads one frame from the socket, from
the first `async_read_any` up to the call of `handle_parsed_frame`; the loop itself is in
`WebSocket/Connection.lean`.
-/

namespace WebSocketsLib

/-- `struct WsFrame`. -/
structure WsFrame where
  fin : Bool := false
  rsv1 : Bool := false
  rsv2 : Bool := false
  rsv3 : Bool := false
  opcode : UInt8 := 0
  mask : Bool := false
  maskingKey : UInt32 := 0
  payloadLength : UInt64 := 0
  payloadData : Bytes := []
  deriving DecidableEq, Repr

/-! ### `write_frame` -/

/-- `frame.masking_key >> ((3 - i % 4) * 8) & 0xFF`, converted to `uint8_t` by the `^=`. -/
def maskOctet (maskingKey : UInt32) (i : ℕ) : UInt8 :=
  (maskingKey >>> UInt32.ofNat ((3 - i % 4) * 8) &&& 0xFF).toUInt8

/-- The second byte and the extended length that follows it, in the three length classes. -/
def lengthBytes (mask : Bool) (payloadLen : UInt64) : Bytes :=
  let byte1 := mask.toUInt8 <<< 7
  if payloadLen ≤ 125 then
    [byte1 ||| payloadLen.toUInt8]
  else if payloadLen ≤ 0xFFFF then
    [byte1 ||| 126, (payloadLen >>> 8 &&& 0xFF).toUInt8, (payloadLen &&& 0xFF).toUInt8]
  else
    (byte1 ||| 127) ::
      ([7, 6, 5, 4, 3, 2, 1, 0] : List UInt64).map fun i =>
        (payloadLen >>> (8 * i) &&& 0xFF).toUInt8

/-- The four bytes of the masking key, when the frame is masked. -/
def maskBytes (frame : WsFrame) : Bytes :=
  if frame.mask then
    [(frame.maskingKey >>> 24 &&& 0xFF).toUInt8, (frame.maskingKey >>> 16 &&& 0xFF).toUInt8,
      (frame.maskingKey >>> 8 &&& 0xFF).toUInt8, (frame.maskingKey &&& 0xFF).toUInt8]
  else []

/-- `write_frame`.  The length is that of `payload_data`; the field `payload_length` is not read. -/
def writeFrame (frame : WsFrame) : Bytes :=
  let payloadLen := UInt64.ofNat frame.payloadData.length
  let byte0 := frame.fin.toUInt8 <<< 7 ||| frame.rsv1.toUInt8 <<< 6 ||| frame.rsv2.toUInt8 <<< 5
    ||| frame.rsv3.toUInt8 <<< 4 ||| (frame.opcode &&& 0x0F)
  byte0 :: (lengthBytes frame.mask payloadLen ++ maskBytes frame ++
    frame.payloadData.mapIdx fun i byte =>
      if frame.mask then byte ^^^ maskOctet frame.maskingKey i else byte)

/-! ### Reading one frame in `do_read_loop` -/

/-- `async_read_any`: exactly `n` bytes from the socket, `none` when the peer's bytes end before
(`asio::async_read` then throws). -/
def asyncReadAny (n : ℕ) (s : Bytes) : Option (Bytes × Bytes) :=
  if n ≤ s.length then some (s.take n, s.drop n) else none

/-- A read of `do_read_loop` that is skipped when no byte is due. -/
def asyncReadDue (n : ℕ) (s : Bytes) : Option (Bytes × Bytes) :=
  if n > 0 then asyncReadAny n s else some ([], s)

/-- `key >> ((3 - (i & 3)) * 8) & 0xFF`. -/
def unmaskOctet (key : UInt32) (i : ℕ) : UInt8 :=
  (key >>> UInt32.ofNat ((3 - (i &&& 3)) * 8) &&& 0xFF).toUInt8

/-- `ext_len_bytes`. -/
def extLenBytes (len7 : UInt8) : ℕ :=
  if len7 = 126 then 2 else if len7 = 127 then 8 else 0

/-- `payload_len`, from the 7-bit length and the extended length bytes `p[0]`, `p[1]`, .. . -/
def payloadLen (len7 : UInt8) (p : Bytes) : UInt64 :=
  if extLenBytes len7 = 0 then len7.toUInt64
  else if extLenBytes len7 = 2 then (p.getD 0 0).toUInt64 <<< 8 ||| (p.getD 1 0).toUInt64
  else (p.take 8).foldl (fun (payloadLen : UInt64) b => payloadLen <<< 8 ||| b.toUInt64) 0

/-- `mask_key`, from the four bytes at `p`. -/
def maskKey (p : Bytes) : UInt32 :=
  (p.getD 0 0).toUInt32 <<< 24 ||| (p.getD 1 0).toUInt32 <<< 16
    ||| (p.getD 2 0).toUInt32 <<< 8 ||| (p.getD 3 0).toUInt32

/-- One frame off the socket: `none` is the exception of a read that meets the end of the
stream. -/
def decodeFrame (s : Bytes) : Option (WsFrame × Bytes) := do
  let (header, s) ← asyncReadAny 2 s
  let b0 := header.getD 0 0
  let b1 := header.getD 1 0
  let mask := (b1 &&& 0x80) != 0
  let len7 := b1 &&& 0x7F
  -- `mask_bytes`
  let maskBytes := if mask then 4 else 0
  -- extended length and mask, into `header.data() + header_bytes`
  let (p, s) ← asyncReadDue (extLenBytes len7 + maskBytes) s
  let payloadLen := payloadLen len7 p
  let maskKey := if mask then maskKey (p.drop (extLenBytes len7)) else 0
  -- `if (payload_len > 0)`
  let (payload, s) ← asyncReadDue payloadLen.toNat s
  pure ({
      fin := (b0 &&& 0x80) != 0
      opcode := b0 &&& 0x0F
      mask := mask
      maskingKey := maskKey
      payloadLength := payloadLen
      payloadData := if mask then payload.mapIdx fun i b => b ^^^ unmaskOctet maskKey i
        else payload }, s)

/-- `n` rounds of the reading part of `do_read_loop`, one frame each. -/
def decodeFrames : ℕ → Bytes → Option (List WsFrame × Bytes)
  | 0, s => some ([], s)
  | n + 1, s => do
    let (f, s) ← decodeFrame s
    let (fs, s) ← decodeFrames n s
    pure (f :: fs, s)

end WebSocketsLib
