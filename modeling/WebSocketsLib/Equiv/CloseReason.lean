import WebSocketsLib.Client.Equiv.Frames
import WebSocketsLib.Lib.Utf8
import WebSocketsLib.WebSocket.Equiv.ControlFrames

/-!
# Close codes and reasons

`close_of_closeFrame`: a Close frame is decoded to the code and to the part of the reason that
`build_close_payload` keeps, for the frames of the server and of the client.

`carriesUtf8_iff`: that part is cut by bytes, so that a reason in UTF-8 arrives in UTF-8 if and only
if it is not cut, or cut in front of a character.
-/

namespace WebSocketsLib

open BigEndian Utf8 WebSocketClient

/-! ### The payload -/

/-- The two bytes of the code are read back. -/
theorem closeCode_of_bytes (code : UInt16) :
    (code >>> 8 &&& 0xFF).toUInt8.toUInt16 <<< 8 ||| (code &&& 0xFF).toUInt8.toUInt16 = code := by
  have hcode := code.toNat_lt
  have hand : ∀ m : ℕ, m &&& (0xFF : UInt16).toNat = m % 256 :=
    fun m => Nat.and_two_pow_sub_one_eq_mod m 8
  have hhigh : (code >>> 8 &&& 0xFF).toUInt8.toNat = code.toNat / 256 := by
    rw [UInt16.toNat_toUInt8, UInt16.toNat_and, UInt16.toNat_shiftRight, hand]
    show code.toNat >>> 8 % 256 % 256 = _
    rw [Nat.shiftRight_eq_div_pow]
    omega
  have hlow : (code &&& 0xFF).toUInt8.toNat = code.toNat % 256 := by
    rw [UInt16.toNat_toUInt8, UInt16.toNat_and, hand, Nat.mod_mod]
  apply UInt16.toNat_inj.mp
  rw [UInt16.toNat_or, UInt16.toNat_shiftLeft, UInt8.toNat_toUInt16, UInt8.toNat_toUInt16]
  show (code >>> 8 &&& 0xFF).toUInt8.toNat <<< 8 % 2 ^ 16 ||| (code &&& 0xFF).toUInt8.toNat = _
  have hfits : (code >>> 8 &&& 0xFF).toUInt8.toNat <<< 8 < 2 ^ 16 := by
    rw [hhigh, Nat.shiftLeft_eq]
    omega
  rw [Nat.mod_eq_of_lt hfits, or_eq_add, hhigh, hlow]
  omega

/-- What `handle_close_frame` makes of the payload of a Close frame. -/
theorem handleCloseFrame_of_code (code : UInt16) (reason : Bytes) :
    handleCloseFrame ((code >>> 8 &&& 0xFF).toUInt8 :: (code &&& 0xFF).toUInt8 :: reason)
      = sendCloseWithReason code reason ++ [.close code reason] := by
  unfold handleCloseFrame
  dsimp only
  rw [closeCode_of_bytes]

/-- A final Close frame is handled by its payload only. -/
theorem handleParsedFrame_finalClose (handlers : WsHandlers) {f : WsFrame} (fb : FrameBody)
    (hop : f.opcode = wsClose) (hfin : f.fin = true) :
    handleParsedFrame handlers f fb = (fb, handleCloseFrame f.payloadData) := by
  unfold handleParsedFrame
  rw [hop, hfin]
  rfl

/-- The frame of `send_close_with_reason` as its receiver decodes it. -/
theorem decodeFrame_closeFrame (code : UInt16) (reason t : Bytes) :
    decodeFrame (writeFrame (closeFrame code reason) ++ t)
      = some ((closeFrame code reason).received, t) := by
  have hop : wsClose < 16 := by decide
  have hlen : (closeFrame code reason).payloadData.length ≤ 125 :=
    length_buildClosePayload_le code reason
  exact decodeFrame_writeFrame (closeFrame code reason) hop (by omega) t

/-- **Code and reason arrive**: the frame that `send_close_with_reason` gives to `do_write` is a
final Close frame with the code and the first 123 bytes of the reason, and makes its receiver call
`close` with them; the frame of the client's `send_close` does so with the code and no reason. -/
theorem close_of_closeFrame (code : UInt16) (reason t : Bytes) :
    (∃ frame f, sendCloseWithReason code reason = [.doWrite frame] ∧
      frame = writeFrame (closeFrame code reason) ∧
      decodeFrame (frame ++ t) = some (f, t) ∧ f.fin = true ∧ f.opcode = wsClose ∧
      f.payloadData = (code >>> 8 &&& 0xFF).toUInt8 :: (code &&& 0xFF).toUInt8
        :: reason.take (min 123 reason.length) ∧
      ∀ handlers fb, handleParsedFrame handlers f fb = (fb, handleCloseFrame f.payloadData) ∧
        handleCloseFrame f.payloadData
          = sendCloseWithReason code (reason.take (min 123 reason.length))
            ++ [.close code (reason.take (min 123 reason.length))]) ∧
    ∀ maskingKey, ∃ f, decodeFrame (sendClose false maskingKey code ++ t) = some (f, t) ∧
      f.fin = true ∧ f.opcode = wsClose ∧ f.mask = true ∧
      f.payloadData = [(code >>> 8 &&& 0xFF).toUInt8, (code &&& 0xFF).toUInt8] ∧
      ∀ handlers fb, handleParsedFrame handlers f fb = (fb, handleCloseFrame f.payloadData) ∧
        handleCloseFrame f.payloadData = sendCloseWithReason code [] ++ [.close code []] := by
  constructor
  · have hpayload := buildClosePayload_eq code reason
    refine ⟨_, _, rfl, rfl, decodeFrame_closeFrame code reason t, rfl, rfl, hpayload,
      fun handlers fb => ⟨handleParsedFrame_finalClose handlers fb rfl rfl, ?_⟩⟩
    show handleCloseFrame (buildClosePayload code reason) = _
    rw [hpayload, handleCloseFrame_of_code]
  · intro maskingKey
    exact ⟨closeOut maskingKey code, decodeFrame_sendClose maskingKey code t, rfl, rfl, rfl, rfl,
      fun handlers fb => ⟨handleParsedFrame_finalClose handlers fb rfl rfl,
        handleCloseFrame_of_code code []⟩⟩

/-! ### The reason in UTF-8 -/

/-- What is promised of the Close frame of `close_async`, for a reason in UTF-8. -/
structure CarriesUtf8 (code : UInt16) (reason : Bytes) : Prop where
  beginning : (buildClosePayload code reason).drop 2 <+: reason
  length : ((buildClosePayload code reason).drop 2).length ≤ 123
  payload : IsUtf8 ((buildClosePayload code reason).drop 2)
  frames : ∀ (c : Conn) frame, .doWrite frame ∈ c.taskEffects (.closeAsync code reason) →
    ∃ f, decodeFrame frame = some (f, []) ∧ IsUtf8 (f.payloadData.drop 2)

theorem drop_buildClosePayload (code : UInt16) (reason : Bytes) :
    (buildClosePayload code reason).drop 2 = reason.take (min 123 reason.length) := by
  rw [buildClosePayload_eq]
  rfl

/-- What is kept of a reason in UTF-8. -/
theorem isUtf8_drop_iff (code : UInt16) {reason : Bytes} (h : IsUtf8 reason) :
    IsUtf8 ((buildClosePayload code reason).drop 2) ↔
      reason.length ≤ 123 ∨ (reason.getD 123 0).IsUTF8FirstByte := by
  rw [drop_buildClosePayload]
  rcases le_or_gt reason.length 123 with hle | hlt
  · rw [Nat.min_eq_right hle, List.take_length]
    exact ⟨fun _ => Or.inl hle, fun _ => h⟩
  · rw [Nat.min_eq_left hlt.le, isUtf8_take_iff h hlt, List.getD_eq_getElem _ _ hlt]
    exact ⟨Or.inr, fun hor => hor.resolve_left (by omega)⟩

/-- The frame of `close_async` has the payload of `build_close_payload`. -/
theorem decodeFrame_closeAsync {c : Conn} {code : UInt16} {reason frame : Bytes}
    (h : .doWrite frame ∈ c.taskEffects (.closeAsync code reason)) :
    ∃ f, decodeFrame frame = some (f, []) ∧ f.payloadData = buildClosePayload code reason := by
  obtain rfl : frame = writeFrame (closeFrame code reason) := by
    simpa [Conn.taskEffects, sendCloseWithReason] using h
  have hdecode := decodeFrame_closeFrame code reason []
  rw [List.append_nil] at hdecode
  exact ⟨_, hdecode, rfl⟩

/-- **A reason in UTF-8** arrives in UTF-8 if and only if it has at most 123 bytes, or a character
begins behind its first 123 bytes. -/
theorem carriesUtf8_iff (code : UInt16) {reason : Bytes} (h : IsUtf8 reason) :
    CarriesUtf8 code reason ↔
      reason.length ≤ 123 ∨ (reason.getD 123 0).IsUTF8FirstByte := by
  rw [← isUtf8_drop_iff code h]
  refine ⟨CarriesUtf8.payload, fun hutf8 => ⟨?_, ?_, hutf8, fun c frame hmem => ?_⟩⟩
  · rw [drop_buildClosePayload]
    exact List.take_prefix _ _
  · rw [drop_buildClosePayload, List.length_take]
    omega
  · obtain ⟨f, hdecode, hpayload⟩ := decodeFrame_closeAsync hmem
    exact ⟨f, hdecode, by rwa [hpayload]⟩

/-- A short reason. -/
theorem carriesUtf8_iff_short : CarriesUtf8 1000 (['é'].flatMap String.utf8EncodeChar) :=
  (carriesUtf8_iff 1000 (isUtf8_flatMap ['é'])).mpr (Or.inl (by decide))

/-- 122 letters and a character of two bytes, which the cut separates. -/
def longReason : Bytes :=
  (List.replicate 122 'a' ++ ['é']).flatMap String.utf8EncodeChar

theorem not_carriesUtf8_longReason :
    ¬∀ code reason, IsUtf8 reason → CarriesUtf8 code reason := by
  intro h
  have hutf8 : IsUtf8 longReason := isUtf8_flatMap _
  have hcut := (isUtf8_drop_iff 1000 hutf8).mp (h 1000 longReason hutf8).payload
  exact absurd hcut (by decide +kernel)

end WebSocketsLib
