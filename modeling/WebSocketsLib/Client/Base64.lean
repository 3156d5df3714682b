import WebSocketsLib.Http.Base64

/-!
# The base64 encoder of the client

`WebSocketClient::base64_encode` and `generate_key`.
-/

namespace WebSocketsLib

namespace WebSocketClient

/-- `i < len ? uint32_t(data[i++]) << shift : 0`: the operand, and `i` after it. -/
def base64Operand (data : Bytes) (shift : UInt32) (i : ℕ) : UInt32 × ℕ :=
  if i < data.length then ((data.getD i 0).toUInt32 <<< shift, i + 1) else (0, i)

/-- The loop of `base64_encode` from `i` on.  Every round advances `i`, so `fuel` is the number of
bytes that are left. -/
def base64Loop (data : Bytes) : ℕ → ℕ → Bytes
  | 0, _ => []
  | fuel + 1, i =>
    if i < data.length then
      let (v0, i) := base64Operand data 16 i
      let (v1, i) := base64Operand data 8 i
      let (v2, i) := base64Operand data 0 i
      let v := v0 ||| v1 ||| v2
      base64Char (v >>> 18) :: base64Char (v >>> 12) ::
        (if i > data.length + 1 then 0x3D else base64Char (v >>> 6)) ::
        (if i > data.length then 0x3D else base64Char v) :: base64Loop data fuel i
    else []

/-- `WebSocketClient::base64_encode`, whose table is the one of the server. -/
def base64Encode (data : Bytes) : Bytes :=
  base64Loop data data.length 0

/-- `generate_key`: `r` is what `std::random_device` has filled the array with. -/
def generateKey (r : Bytes) : Bytes :=
  base64Encode r

end WebSocketClient

end WebSocketsLib
