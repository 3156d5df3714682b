import WebSocketsLib.Lib.BigEndian
import WebSocketsLib.WebSocket.WsFrame
import Mathlib.Data.List.Forall2
import Mathlib.Tactic.Common

/-!
# The decoder of `do_read_loop` inverts `write_frame`

`decodeFrame_writeFrame`: reading a frame off the encoding of `f` followed by any bytes `t` gives
`received f` (the frame without its reserved bits, with `payload_length` filled in) and leaves `t`.
The proof reads the header in the three length classes (`lengthBytes_spec`), the masking key
(`maskKey_maskBytes`) and undoes the masking (`unmask_mask`).  `decodeFrames_writeFrames` is the
statement for a whole stream.
-/

namespace WebSocketsLib

open BigEndian

/-! ### Masking -/

theorem unmaskOctet_eq_maskOctet (key : UInt32) (i : ℕ) : unmaskOctet key i = maskOctet key i := by
  have hand : i &&& 3 = i % 4 := Nat.and_two_pow_sub_one_eq_mod i 2
  rw [unmaskOctet, maskOctet, hand]

/-- Masking twice with the same key gives the payload back. -/
theorem unmask_mask (key : UInt32) (payload : Bytes) :
    (payload.mapIdx fun i b => b ^^^ maskOctet key i).mapIdx (fun i b => b ^^^ unmaskOctet key i)
      = payload := by
  rw [List.mapIdx_mapIdx]
  have hcancel : ∀ (i : ℕ) (b : UInt8), b ^^^ maskOctet key i ^^^ unmaskOctet key i = b := by
    intro i b
    rw [unmaskOctet_eq_maskOctet, UInt8.xor_assoc, UInt8.xor_self, UInt8.xor_zero]
  apply List.ext_getElem (by simp)
  intro i _ _
  simp [hcancel]

/-- The low byte of a shifted 64-bit number. -/
theorem shiftRight_and_toUInt8 (n : UInt64) (i : ℕ) (hi : i < 8) :
    (n >>> UInt64.ofNat (8 * i) &&& 0xFF).toUInt8 = UInt8.ofNat (n.toNat >>> (8 * i)) := by
  apply UInt8.toNat_inj.mp
  have hmod : (UInt64.ofNat (8 * i)).toNat % 64 = 8 * i := by
    rw [UInt64.toNat_ofNat']
    omega
  have hand : ∀ m : ℕ, m &&& (0xFF : UInt64).toNat = m % 256 :=
    fun m => Nat.and_two_pow_sub_one_eq_mod m 8
  rw [UInt64.toNat_toUInt8, UInt64.toNat_and, UInt64.toNat_shiftRight, hmod, hand,
    UInt8.toNat_ofNat', Nat.mod_mod]

/-- The four key bytes are the big-endian numeral of the key. -/
theorem maskBytes_eq (f : WsFrame) (h : f.mask = true) :
    maskBytes f = toBE 4 f.maskingKey.toNat := by
  have hbyte : ∀ (k : UInt32) (i : ℕ), i < 4 →
      (k >>> UInt32.ofNat (8 * i) &&& 0xFF).toUInt8 = UInt8.ofNat (k.toNat >>> (8 * i)) := by
    intro k i hi
    apply UInt8.toNat_inj.mp
    have hmod : (UInt32.ofNat (8 * i)).toNat % 32 = 8 * i := by
      rw [UInt32.toNat_ofNat']
      omega
    have hand : ∀ m : ℕ, m &&& (0xFF : UInt32).toNat = m % 256 :=
      fun m => Nat.and_two_pow_sub_one_eq_mod m 8
    rw [UInt32.toNat_toUInt8, UInt32.toNat_and, UInt32.toNat_shiftRight, hmod, hand,
      UInt8.toNat_ofNat', Nat.mod_mod]
  rw [maskBytes, if_pos h]
  simp only [toBE]
  rw [← hbyte _ 3 (by omega), ← hbyte _ 2 (by omega), ← hbyte _ 1 (by omega),
    ← hbyte _ 0 (by omega)]
  simp

/-- The shifts and ors of the decoder read a big-endian numeral. -/
theorem maskKey_toNat (a b c d : UInt8) (tail : Bytes) :
    (maskKey (a :: b :: c :: d :: tail)).toNat = ofBE [a, b, c, d] := by
  have ha := a.toNat_lt
  have hb := b.toNat_lt
  have hc := c.toNat_lt
  have hshift : ∀ (x : UInt8) (k : ℕ), k ≤ 24 →
      (x.toUInt32 <<< UInt32.ofNat k).toNat = x.toNat <<< k := by
    intro x k hk
    have hx : x.toNat < 2 ^ 8 := x.toNat_lt
    have hpow : 2 ^ k ≤ 2 ^ 24 := Nat.pow_le_pow_right (by omega) hk
    have hmul : x.toNat * 2 ^ k ≤ x.toNat * 2 ^ 24 := Nat.mul_le_mul_left _ hpow
    rw [UInt32.toNat_shiftLeft, UInt8.toNat_toUInt32, UInt32.toNat_ofNat',
      Nat.mod_eq_of_lt (show k < 2 ^ 32 by omega), Nat.mod_eq_of_lt (show k < 32 by omega),
      Nat.shiftLeft_eq]
    omega
  have h24 := hshift a 24 (by omega)
  have h16 := hshift b 16 (by omega)
  have h8 := hshift c 8 (by omega)
  -- the four summands occupy disjoint bytes, so the ors regroup as Horner steps
  have hregroup : a.toNat <<< 24 ||| b.toNat <<< 16 ||| c.toNat <<< 8 ||| d.toNat
      = (((a.toNat <<< 8 ||| b.toNat) <<< 8 ||| c.toNat) <<< 8) ||| d.toNat := by
    simp only [Nat.shiftLeft_or_distrib, ← Nat.shiftLeft_add]
  show (a.toUInt32 <<< UInt32.ofNat 24 ||| b.toUInt32 <<< UInt32.ofNat 16
    ||| c.toUInt32 <<< UInt32.ofNat 8 ||| d.toUInt32).toNat = _
  rw [UInt32.toNat_or, UInt32.toNat_or, UInt32.toNat_or, h24, h16, h8, UInt8.toNat_toUInt32,
    hregroup, or_eq_add, or_eq_add, or_eq_add]
  simp [ofBE]

/-- **The masking key** is read back. -/
theorem maskKey_maskBytes (f : WsFrame) (h : f.mask = true) (tail : Bytes) :
    maskKey (maskBytes f ++ tail) = f.maskingKey := by
  apply UInt32.toNat_inj.mp
  rw [maskBytes_eq f h]
  simp only [toBE, List.cons_append, List.nil_append]
  rw [maskKey_toNat]
  exact ofBE_toBE (k := 4) (by have := f.maskingKey.toNat_lt; omega)

/-- The key bytes that were sent. -/
theorem maskBytes_of_maskingKey {f : WsFrame} {key : Bytes} (h : key.length = 4)
    (hmask : f.mask = true) (hkey : f.maskingKey = maskKey key) : maskBytes f = key := by
  have hsplit := List.length_eq_four.mp h
  rw [maskBytes_eq f hmask, hkey, ← h]
  obtain ⟨a, b, c, d, rfl⟩ := hsplit
  rw [maskKey_toNat a b c d [], toBE_ofBE]

/-- The octets that the server takes from the key are those that were sent. -/
theorem unmaskOctet_maskKey {key : Bytes} (h : key.length = 4) (i : ℕ) :
    unmaskOctet (maskKey key) i = key.getD (i % 4) 0 := by
  have hoctet : ∀ j, j < 4 → (maskKey key >>> UInt32.ofNat ((3 - j) * 8) &&& 0xFF).toUInt8
      = (maskBytes { mask := true, maskingKey := maskKey key }).getD j 0 := by
    intro j hj
    match j, hj with
    | 0, _ => rfl
    | 1, _ => rfl
    | 2, _ => rfl
    | 3, _ =>
      show (maskKey key >>> 0 &&& 0xFF).toUInt8 = (maskKey key &&& 0xFF).toUInt8
      rw [UInt32.shiftRight_zero]
  rw [unmaskOctet_eq_maskOctet, maskOctet, hoctet _ (Nat.mod_lt i (by omega)),
    maskBytes_of_maskingKey h rfl rfl]

theorem length_maskBytes (f : WsFrame) : (maskBytes f).length = if f.mask then 4 else 0 := by
  unfold maskBytes
  split_ifs <;> rfl

/-! ### The first two bytes and the length -/

theorem or_and_distrib_right (a b c : UInt8) : (a ||| b) &&& c = (a &&& c) ||| (b &&& c) := by
  apply UInt8.toNat_inj.mp
  simp only [UInt8.toNat_and, UInt8.toNat_or, Nat.and_or_distrib_right]

/-- What the decoder reads from the first byte: the `fin` bit and the low four bits. -/
theorem byte0_spec (f : WsFrame) (h : f.opcode < 16) :
    let byte0 := f.fin.toUInt8 <<< 7 ||| f.rsv1.toUInt8 <<< 6 ||| f.rsv2.toUInt8 <<< 5
      ||| f.rsv3.toUInt8 <<< 4 ||| (f.opcode &&& 0x0F)
    ((byte0 &&& 0x80) != 0) = f.fin ∧ byte0 &&& 0x0F = f.opcode := by
  have hop : f.opcode &&& 0x0F = f.opcode := by
    apply UInt8.toNat_inj.mp
    have hlt : f.opcode.toNat < 16 := h
    rw [UInt8.toNat_and]
    exact (Nat.and_two_pow_sub_one_eq_mod f.opcode.toNat 4).trans (Nat.mod_eq_of_lt hlt)
  have hhigh : f.opcode &&& 0x80 = 0 := by
    rw [← hop, UInt8.and_assoc, show (0x0F : UInt8) &&& 0x80 = 0 by decide, UInt8.and_zero]
  simp only [hop, or_and_distrib_right, hhigh]
  generalize f.opcode = op
  cases f.fin <;> cases f.rsv1 <;> cases f.rsv2 <;> cases f.rsv3 <;>
    exact ⟨by decide, UInt8.zero_or⟩

/-- What the decoder reads from the second byte. -/
theorem byte1_spec (mask : Bool) (len7 : UInt8) (h : len7 < 128) :
    ((mask.toUInt8 <<< 7 ||| len7) &&& 0x80 != 0) = mask ∧
      (mask.toUInt8 <<< 7 ||| len7) &&& 0x7F = len7 := by
  have hlow : len7 &&& 0x7F = len7 := by
    apply UInt8.toNat_inj.mp
    have hlt : len7.toNat < 128 := h
    rw [UInt8.toNat_and]
    exact (Nat.and_two_pow_sub_one_eq_mod len7.toNat 7).trans (Nat.mod_eq_of_lt hlt)
  have hhigh : len7 &&& 0x80 = 0 := by
    rw [← hlow, UInt8.and_assoc, show (0x7F : UInt8) &&& 0x80 = 0 by decide, UInt8.and_zero]
  simp only [or_and_distrib_right, hhigh, hlow]
  cases mask
  · exact ⟨by decide, UInt8.zero_or⟩
  · exact ⟨by decide, UInt8.zero_or⟩

/-- The extended length that is written is a big-endian numeral. -/
theorem lengthBytes_eq (mask : Bool) (n : UInt64) : lengthBytes mask n =
    if n.toNat ≤ 125 then [mask.toUInt8 <<< 7 ||| n.toUInt8]
    else if n.toNat ≤ 0xFFFF then (mask.toUInt8 <<< 7 ||| 126) :: toBE 2 n.toNat
    else (mask.toUInt8 <<< 7 ||| 127) :: toBE 8 n.toNat := by
  have htwo : [(n >>> 8 &&& 0xFF).toUInt8, (n &&& 0xFF).toUInt8] = toBE 2 n.toNat := by
    simp only [toBE]
    rw [← shiftRight_and_toUInt8 n 1 (by omega), ← shiftRight_and_toUInt8 n 0 (by omega)]
    simp
  have height : (([7, 6, 5, 4, 3, 2, 1, 0] : List UInt64).map
      fun i => (n >>> (8 * i) &&& 0xFF).toUInt8) = toBE 8 n.toNat := by
    simp only [toBE, ← shiftRight_and_toUInt8 n _ (show 7 < 8 by omega),
      ← shiftRight_and_toUInt8 n _ (show 6 < 8 by omega),
      ← shiftRight_and_toUInt8 n _ (show 5 < 8 by omega),
      ← shiftRight_and_toUInt8 n _ (show 4 < 8 by omega),
      ← shiftRight_and_toUInt8 n _ (show 3 < 8 by omega),
      ← shiftRight_and_toUInt8 n _ (show 2 < 8 by omega),
      ← shiftRight_and_toUInt8 n _ (show 1 < 8 by omega),
      ← shiftRight_and_toUInt8 n _ (show 0 < 8 by omega)]
    rfl
  rw [lengthBytes, htwo, height]
  exact if_congr Iff.rfl rfl (if_congr Iff.rfl rfl rfl)

/-- The length that is read: the seven bits, or the big-endian numeral behind them. -/
theorem payloadLen_toNat {len7 : UInt8} {ext : Bytes} (hext : ext.length = extLenBytes len7)
    (tail : Bytes) : (payloadLen len7 (ext ++ tail)).toNat
      = if extLenBytes len7 = 0 then len7.toNat else ofBE ext := by
  unfold payloadLen
  split_ifs with hnone htwo
  · rw [UInt8.toNat_toUInt64]
  · rw [htwo] at hext
    obtain ⟨x, y, rfl⟩ := List.length_eq_two.mp hext
    rw [← foldl_shiftOr64 [x, y] (by simp)]
    simp
  · have height : ext.length = 8 := by
      rw [hext]
      unfold extLenBytes at hnone htwo ⊢
      split_ifs at hnone htwo ⊢ <;> omega
    rw [List.take_append_of_le_length height.ge, List.take_of_length_le height.le,
      foldl_shiftOr64 _ height.le]

/-- **The length**, in its three classes: the encoder writes a second byte and an extended length
from which the decoder gets the mask flag, the size of the extended length and the length. -/
theorem lengthBytes_spec (mask : Bool) (n : UInt64) :
    ∃ b1 ext, lengthBytes mask n = b1 :: ext ∧ (b1 &&& 0x80 != 0) = mask ∧
      ext.length = extLenBytes (b1 &&& 0x7F) ∧
      ∀ tail, payloadLen (b1 &&& 0x7F) (ext ++ tail) = n := by
  rw [lengthBytes_eq]
  split_ifs with h125 hFFFF
  · -- at most 125: the length is the second byte itself
    have hlen7 : n.toUInt8.toNat = n.toNat := by
      rw [UInt64.toNat_toUInt8]
      omega
    obtain ⟨hm, h7⟩ := byte1_spec mask n.toUInt8 (by
      show n.toUInt8.toNat < 128
      omega)
    have hlong : ∀ m : UInt8, 125 < m.toNat → n.toUInt8 ≠ m := by
      rintro m hm rfl
      omega
    have hext : extLenBytes n.toUInt8 = 0 := by
      rw [extLenBytes, if_neg (hlong 126 (by decide)), if_neg (hlong 127 (by decide))]
    refine ⟨_, [], rfl, hm, ?_, fun tail => ?_⟩
    · rw [h7, hext, List.length_nil]
    · rw [h7]
      apply UInt64.toNat_inj.mp
      have hnil := payloadLen_toNat (show ([] : Bytes).length = _ from hext.symm) tail
      rw [hnil, if_pos hext, hlen7]
  · -- at most 0xFFFF: two bytes follow
    obtain ⟨hm, h7⟩ := byte1_spec mask 126 (by decide)
    refine ⟨_, _, rfl, hm, by rw [h7]; rfl, fun tail => ?_⟩
    rw [h7]
    apply UInt64.toNat_inj.mp
    rw [payloadLen_toNat (by rfl), if_neg (by decide), ofBE_toBE (by omega)]
  · -- the 64-bit form: eight bytes follow
    obtain ⟨hm, h7⟩ := byte1_spec mask 127 (by decide)
    refine ⟨_, _, rfl, hm, by rw [h7]; rfl, fun tail => ?_⟩
    rw [h7]
    apply UInt64.toNat_inj.mp
    rw [payloadLen_toNat (by rfl), if_neg (by decide),
      ofBE_toBE (by have := n.toNat_lt; omega)]

/-! ### One frame -/

/-- An exact read off a string that starts with the bytes wanted. -/
theorem asyncReadAny_append (x s : Bytes) : asyncReadAny x.length (x ++ s) = some (x, s) := by
  rw [asyncReadAny, if_pos (by simp)]
  simp

theorem asyncReadDue_append {n : ℕ} {x : Bytes} (h : x.length = n) (s : Bytes) :
    asyncReadDue n (x ++ s) = some (x, s) := by
  subst h
  unfold asyncReadDue
  split_ifs with hpos
  · exact asyncReadAny_append x s
  · have hnil : x = [] := List.length_eq_zero_iff.mp (by omega)
    rw [hnil, List.nil_append]

/-- The decoder on a header and payload whose sizes fit the header's second byte. -/
theorem decodeFrame_append {b0 b1 : UInt8} {ext key payload t : Bytes}
    (hext : ext.length = extLenBytes (b1 &&& 0x7F))
    (hkey : key.length = if (b1 &&& 0x80 != 0) = true then 4 else 0)
    (hlen : payload.length = (payloadLen (b1 &&& 0x7F) (ext ++ key)).toNat) :
    decodeFrame (b0 :: b1 :: (ext ++ key ++ payload ++ t)) = some ({
      fin := (b0 &&& 0x80) != 0
      opcode := b0 &&& 0x0F
      mask := (b1 &&& 0x80) != 0
      maskingKey := if (b1 &&& 0x80 != 0) = true then maskKey key else 0
      payloadLength := payloadLen (b1 &&& 0x7F) (ext ++ key)
      payloadData := if (b1 &&& 0x80 != 0) = true
        then payload.mapIdx fun i b => b ^^^ unmaskOctet (maskKey key) i else payload }, t) := by
  have h2 : asyncReadAny 2 (b0 :: b1 :: (ext ++ key ++ (payload ++ t)))
      = some ([b0, b1], ext ++ key ++ (payload ++ t)) := asyncReadAny_append [b0, b1] _
  have hrest := asyncReadDue_append (s := payload ++ t)
    (show (ext ++ key).length = _ by rw [List.length_append, hext, hkey])
  have hpay := asyncReadDue_append hlen t
  rw [List.append_assoc (ext ++ key), decodeFrame, h2]
  simp only [Option.bind_eq_bind, Option.bind_some, List.getD_cons_zero, List.getD_cons_succ,
    hrest, hpay, Option.pure_def]
  rw [← hext, List.drop_left]
  split_ifs <;> rfl

theorem asyncReadDue_eq_some {n : ℕ} {s x t : Bytes} (h : asyncReadDue n s = some (x, t)) :
    s = x ++ t ∧ x.length = n := by
  unfold asyncReadDue asyncReadAny at h
  split_ifs at h with hpos hle
  · obtain ⟨rfl, rfl⟩ := Prod.mk.inj (Option.some.inj h)
    exact ⟨(List.take_append_drop n s).symm, List.length_take_of_le hle⟩
  · obtain ⟨rfl, rfl⟩ := Prod.mk.inj (Option.some.inj h)
    exact ⟨rfl, by rw [List.length_nil]; omega⟩

/-- The bytes of a frame that is decoded, and what is behind them. -/
theorem exists_of_decodeFrame {s t : Bytes} {f : WsFrame} (h : decodeFrame s = some (f, t)) :
    ∃ b0 b1 ext key payload, s = b0 :: b1 :: (ext ++ key ++ payload ++ t) ∧
      ext.length = extLenBytes (b1 &&& 0x7F) ∧
      key.length = (if (b1 &&& 0x80 != 0) = true then 4 else 0) ∧
      payload.length = (payloadLen (b1 &&& 0x7F) (ext ++ key)).toNat := by
  unfold decodeFrame at h
  obtain ⟨⟨header, s₁⟩, hheader, h⟩ := Option.bind_eq_some_iff.mp h
  obtain ⟨⟨p, s₂⟩, hp, h⟩ := Option.bind_eq_some_iff.mp h
  obtain ⟨⟨payload, s₃⟩, hpayload, h⟩ := Option.bind_eq_some_iff.mp h
  obtain ⟨-, rfl⟩ := Prod.mk.inj (Option.some.inj h)
  obtain ⟨rfl, hlen⟩ := asyncReadDue_eq_some (n := 2) hheader
  obtain ⟨b0, b1, rfl⟩ := List.length_eq_two.mp hlen
  obtain ⟨rfl, hplen⟩ := asyncReadDue_eq_some hp
  obtain ⟨rfl, hpaylen⟩ := asyncReadDue_eq_some hpayload
  rw [List.getD_cons_succ, List.getD_cons_zero] at hplen hpaylen
  refine ⟨b0, b1, p.take (extLenBytes (b1 &&& 0x7F)), p.drop (extLenBytes (b1 &&& 0x7F)), payload,
    ?_, ?_, ?_, ?_⟩
  · rw [List.take_append_drop, List.append_assoc]
    rfl
  · rw [List.length_take, hplen]
    exact Nat.min_eq_left (Nat.le_add_right _ _)
  · rw [List.length_drop, hplen]
    exact Nat.add_sub_cancel_left _ _
  · rwa [List.take_append_drop]

/-- The decoder reads nothing behind a frame. -/
theorem decodeFrame_append_of_some {s t : Bytes} {f : WsFrame} (h : decodeFrame s = some (f, t))
    (v : Bytes) : decodeFrame (s ++ v) = some (f, t ++ v) := by
  obtain ⟨b0, b1, ext, key, payload, rfl, hext, hkey, hlen⟩ := exists_of_decodeFrame h
  rw [decodeFrame_append hext hkey hlen] at h
  obtain ⟨rfl, -⟩ := Prod.mk.inj (Option.some.inj h)
  rw [← decodeFrame_append hext hkey hlen, List.cons_append, List.cons_append, List.append_assoc]

/-- The length that was announced is that of the payload. -/
theorem payloadLength_of_decodeFrame {s t : Bytes} {f : WsFrame}
    (h : decodeFrame s = some (f, t)) : f.payloadLength.toNat = f.payloadData.length := by
  obtain ⟨b0, b1, ext, key, payload, rfl, hext, hkey, hlen⟩ := exists_of_decodeFrame h
  rw [decodeFrame_append hext hkey hlen] at h
  obtain ⟨rfl, -⟩ := Prod.mk.inj (Option.some.inj h)
  dsimp only
  split_ifs
  · rw [List.length_mapIdx, hlen]
  · rw [hlen]

/-- What is left behind a frame is an end of the stream. -/
theorem eq_drop_of_decodeFrame {s t : Bytes} {f : WsFrame} (h : decodeFrame s = some (f, t)) :
    ∃ k ≤ s.length, t = s.drop k := by
  obtain ⟨b0, b1, ext, key, payload, rfl, -, -, -⟩ := exists_of_decodeFrame h
  have hsuffix : t <:+ b0 :: b1 :: (ext ++ key ++ payload ++ t) :=
    ⟨b0 :: b1 :: (ext ++ key ++ payload), rfl⟩
  exact ⟨_, Nat.sub_le _ _, List.suffix_iff_eq_drop.mp hsuffix⟩

/-- A frame as its receiver sees it: the reserved bits are dropped, the key of an unmasked frame
is not transmitted, and `payload_length` is the size of the payload. -/
def WsFrame.received (f : WsFrame) : WsFrame where
  fin := f.fin
  opcode := f.opcode
  mask := f.mask
  maskingKey := if f.mask then f.maskingKey else 0
  payloadLength := UInt64.ofNat f.payloadData.length
  payloadData := f.payloadData

/-- **Decoding inverts encoding**, whatever follows the frame. -/
theorem decodeFrame_writeFrame (f : WsFrame) (hop : f.opcode < 16)
    (hlen : f.payloadData.length < 2 ^ 64) (t : Bytes) :
    decodeFrame (writeFrame f ++ t) = some (f.received, t) := by
  obtain ⟨b1, ext, heq, hmask, hext, hpl⟩ :=
    lengthBytes_spec f.mask (UInt64.ofNat f.payloadData.length)
  obtain ⟨hfin, hopc⟩ := byte0_spec f hop
  have hnat : (UInt64.ofNat f.payloadData.length).toNat = f.payloadData.length := by
    rw [UInt64.toNat_ofNat', Nat.mod_eq_of_lt hlen]
  simp only [writeFrame, heq, List.cons_append]
  rw [decodeFrame_append hext (by rw [hmask, length_maskBytes]) (by
    rw [hpl, hnat, List.length_mapIdx])]
  rw [hfin, hopc, hmask, hpl, WsFrame.received]
  cases hm : f.mask with
  | false => simp [List.mapIdx_eq_zipIdx_map]
  | true =>
    have hkey : maskKey (maskBytes f) = f.maskingKey := by
      have h := maskKey_maskBytes f hm []
      rwa [List.append_nil] at h
    simp only [if_true, hkey, unmask_mask]

/-! ### Whole streams -/

theorem decodeFrames_flatten (fs : List WsFrame)
    (h : ∀ f ∈ fs, f.opcode < 16 ∧ f.payloadData.length < 2 ^ 64) (t : Bytes) :
    decodeFrames fs.length ((fs.map writeFrame).flatten ++ t)
      = some (fs.map WsFrame.received, t) := by
  induction fs with
  | nil => rfl
  | cons f fs ih =>
    obtain ⟨hop, hlen⟩ := h f (List.mem_cons_self ..)
    have ih := ih fun g hg => h g (List.mem_cons_of_mem _ hg)
    rw [List.length_cons, decodeFrames, List.map_cons, List.flatten_cons, List.append_assoc,
      decodeFrame_writeFrame f hop hlen]
    simp [ih]

/-- What the two ends of a connection agree on: everything but the reserved bits, and the masking
key only of a masked frame. -/
structure SameFrame (sent got : WsFrame) : Prop where
  fin : got.fin = sent.fin
  opcode : got.opcode = sent.opcode
  mask : got.mask = sent.mask
  payload : got.payloadData = sent.payloadData
  payloadLength : got.payloadLength.toNat = sent.payloadData.length
  maskingKey : sent.mask = true → got.maskingKey = sent.maskingKey

theorem sameFrame_received (f : WsFrame) (h : f.payloadData.length < 2 ^ 64) :
    SameFrame f f.received where
  fin := rfl
  opcode := rfl
  mask := rfl
  payload := rfl
  payloadLength := by
    rw [WsFrame.received, UInt64.toNat_ofNat', Nat.mod_eq_of_lt h]
  maskingKey hm := by rw [WsFrame.received, if_pos hm]

/-- **The codec over a stream**: the decoder, run once per frame over the encodings of `fs`
followed by `t`, yields the frames in order and leaves exactly `t`. -/
theorem decodeFrames_writeFrames (fs : List WsFrame)
    (h : ∀ f ∈ fs, f.opcode < 16 ∧ f.payloadData.length < 2 ^ 63) (t : Bytes) :
    ∃ gs, decodeFrames fs.length ((fs.map writeFrame).flatten ++ t) = some (gs, t) ∧
      List.Forall₂ SameFrame fs gs := by
  have h64 : ∀ f ∈ fs, f.opcode < 16 ∧ f.payloadData.length < 2 ^ 64 :=
    fun f hf => ⟨(h f hf).1, by have := (h f hf).2; omega⟩
  refine ⟨fs.map WsFrame.received, decodeFrames_flatten fs h64 t, ?_⟩
  rw [List.forall₂_map_right_iff, List.forall₂_same]
  exact fun f hf => sameFrame_received f (h64 f hf).2

/-- A stream of two frames, one with a reserved bit and one masked. -/
def twoFrames : List WsFrame :=
  [{ fin := true, rsv2 := true, opcode := 1, payloadData := bytes "hi" },
    { opcode := 2, mask := true, maskingKey := 0x01020304, payloadData := [7, 8, 9, 10, 11] }]

theorem decodeFrames_writeFrames_twoFrames :
    ∃ gs, decodeFrames twoFrames.length ((twoFrames.map writeFrame).flatten ++ [42])
        = some (gs, [42]) ∧ List.Forall₂ SameFrame twoFrames gs :=
  decodeFrames_writeFrames twoFrames (by decide) [42]

end WebSocketsLib
