import WebSocketsLib.Bytes
import Mathlib.Data.Int.Notation

/-!
# `base64_encode` and `ws_accept_key`

The encoder of `http/utils.h`, with its accumulator of 32 bits that wraps, and the value of
`Sec-WebSocket-Accept`.  SHA-1 is vendored code and a parameter.
-/

namespace WebSocketsLib

/-- `tbl`. -/
def base64Table : Bytes :=
  bytes "ABCDEFGHIJKLMNOPQRSTUVWXYZabcdefghijklmnopqrstuvwxyz0123456789+/"

/-- `tbl[v & 0x3F]`. -/
def base64Char (v : UInt32) : UInt8 :=
  base64Table.getD (v &&& 0x3F).toNat 0

/-- `while (valb >= 0) { out.push_back(..); valb -= 6; }`: what is pushed, and `valb` at the end.
Every round takes six from `valb`, so `fuel` is `valb` and one more. -/
def base64Drain (val : UInt32) : ℕ → ℤ → Bytes × ℤ
  | 0, valb => ([], valb)
  | fuel + 1, valb =>
    if valb ≥ 0 then
      let (out, valb') := base64Drain val fuel (valb - 6)
      (base64Char (val >>> UInt32.ofNat valb.toNat) :: out, valb')
    else ([], valb)

/-- The variables of `base64_encode`. -/
structure Base64State where
  out : Bytes := []
  val : UInt32 := 0
  valb : ℤ := -6

/-- One round of the loop over the input. -/
def base64Round (st : Base64State) (byte : UInt8) : Base64State :=
  let val := st.val <<< 8 ||| byte.toUInt32
  let valb := st.valb + 8
  let (pushed, valb) := base64Drain val (valb.toNat + 1) valb
  { out := st.out ++ pushed, val, valb }

/-- The last partial group and the padding. -/
def base64Finish (st : Base64State) : Bytes :=
  let out :=
    if st.valb > -6 then
      st.out ++ [base64Char ((st.val <<< 8) >>> UInt32.ofNat (st.valb + 8).toNat)]
    else st.out
  -- `while (out.size() % 4) out.push_back('=');`
  out ++ List.replicate ((4 - out.length % 4) % 4) 0x3D

/-- `base64_encode`. -/
def base64Encode (src : Bytes) : Bytes :=
  base64Finish (src.foldl base64Round {})

/-- `kMagic`. -/
def kMagic : Bytes :=
  bytes "258EAFA5-E914-47DA-95CA-C5AB0DC85B11"

/-- `Chocobo1::SHA1`: any function to 20 bytes. -/
structure Sha1 where
  digest : Bytes → Bytes
  length_digest : ∀ data, (digest data).length = 20

/-- `ws_accept_key`. -/
def wsAcceptKey (sha1 : Sha1) (clientKey : Bytes) : Bytes :=
  base64Encode (sha1.digest (clientKey ++ kMagic))

end WebSocketsLib
