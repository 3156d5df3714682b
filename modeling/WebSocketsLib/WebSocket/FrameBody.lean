import WebSocketsLib.Bytes

/-!
# `ws_helpers.h`

The buffer of the message being assembled, the opcodes and the payload of a Close frame.
-/

namespace WebSocketsLib

/-- `struct FrameBody`.  `reserved` is what the last `msg.reserve` asked for. -/
structure FrameBody where
  assembling : Bool := false
  opcode : UInt8 := 0
  msg : Bytes := []
  maxSize : ℕ := 0
  reserved : ℕ := 0
  deriving DecidableEq, Repr

namespace FrameBody

/-- The constructor. -/
def ofMaxSize (maxSz : ℕ) : FrameBody where
  maxSize := maxSz

/-- `msg.clear()` keeps the capacity. -/
def reset (fb : FrameBody) : FrameBody :=
  { fb with assembling := false, opcode := 0, msg := [] }

def start (fb : FrameBody) (op : UInt8) (reserveHint : ℕ) : FrameBody :=
  { fb with
    assembling := true
    opcode := op
    msg := []
    reserved := if reserveHint = 0 then fb.reserved else reserveHint }

def wouldExceed (fb : FrameBody) (extra : ℕ) : Bool :=
  fb.maxSize != 0 && decide (fb.msg.length + extra > fb.maxSize)

/-- `append`: `none` is the return value `false`, which leaves the buffer as it is. -/
def append (fb : FrameBody) (data : Bytes) : Option FrameBody :=
  if fb.wouldExceed data.length then none
  else some { fb with msg := fb.msg ++ data }

end FrameBody

/-! ### Opcodes -/

def wsCont : UInt8 := 0x0
def wsText : UInt8 := 0x1
def wsBinary : UInt8 := 0x2
def wsClose : UInt8 := 0x8
def wsPing : UInt8 := 0x9
def wsPong : UInt8 := 0xA

/-- `build_close_payload`. -/
def buildClosePayload (code : UInt16) (reasonUtf8 : Bytes) : Bytes :=
  let room := 125 - 2
  let out := [(code >>> 8 &&& 0xFF).toUInt8, (code &&& 0xFF).toUInt8]
  if reasonUtf8 = [] then out
  else out ++ reasonUtf8.take (min room reasonUtf8.length)

end WebSocketsLib
