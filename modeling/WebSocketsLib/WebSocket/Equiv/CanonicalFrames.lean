import WebSocketsLib.WebSocket.Equiv.WsFrame

/-!
# Which frames `write_frame` gives back

`writeFrame_of_decodeFrame`: encoding a decoded frame gives back the bytes that it was decoded from
exactly when these have no reserved bit and write the length in its shortest form.  In a longer form
(`126` for at most 125 bytes, `127` for at most `0xFFFF`) the encoding is shorter than what was
read.
-/

namespace WebSocketsLib

open BigEndian

/-- The 7-bit length `len7` announces an extended length only for an `n` that needs it. -/
def ShortestLength (len7 : UInt8) (n : ℕ) : Prop :=
  (len7 = 126 → 125 < n) ∧ (len7 = 127 → 0xFFFF < n)

instance (len7 : UInt8) (n : ℕ) : Decidable (ShortestLength len7 n) :=
  inferInstanceAs (Decidable (_ ∧ _))

/-! ### The header -/

/-- The first byte that is written for a decoded frame. -/
theorem byte0_eq_iff (b0 : UInt8) : (b0 &&& 0x80 != 0).toUInt8 <<< 7 ||| false.toUInt8 <<< 6
      ||| false.toUInt8 <<< 5 ||| false.toUInt8 <<< 4 ||| (b0 &&& 0x0F &&& 0x0F) = b0
    ↔ b0 &&& 0x70 = 0 := by
  obtain ⟨v⟩ := b0
  revert v
  decide +kernel

theorem byte1_eq (b1 : UInt8) :
    (b1 &&& 0x80 != 0).toUInt8 <<< 7 ||| (b1 &&& 0x7F) = b1 := by
  obtain ⟨v⟩ := b1
  revert v
  decide +kernel

theorem and_0x7F_lt (b1 : UInt8) : (b1 &&& 0x7F).toNat < 128 := by
  rw [UInt8.toNat_and]
  have hmod : b1.toNat &&& 0x7F = b1.toNat % 128 := Nat.and_two_pow_sub_one_eq_mod b1.toNat 7
  show b1.toNat &&& 0x7F < 128
  omega

/-- A 7-bit length below 126 is the length. -/
theorem payloadLen_toNat_of_short {len7 : UInt8} {ext : Bytes}
    (hext : ext.length = extLenBytes len7) (tail : Bytes) (h126 : len7 ≠ 126) (h127 : len7 ≠ 127) :
    ext = [] ∧ (payloadLen len7 (ext ++ tail)).toNat = len7.toNat := by
  have hnone : extLenBytes len7 = 0 := by
    rw [extLenBytes, if_neg h126, if_neg h127]
  rw [payloadLen_toNat hext, if_pos hnone]
  exact ⟨List.length_eq_zero_iff.mp (hext.trans hnone), rfl⟩

/-- The length bytes are given back, if they are the shortest. -/
theorem lengthBytes_payloadLen {b1 : UInt8} {ext : Bytes}
    (hext : ext.length = extLenBytes (b1 &&& 0x7F)) (tail : Bytes)
    (h : ShortestLength (b1 &&& 0x7F) (payloadLen (b1 &&& 0x7F) (ext ++ tail)).toNat) :
    lengthBytes (b1 &&& 0x80 != 0) (payloadLen (b1 &&& 0x7F) (ext ++ tail)) = b1 :: ext := by
  have hlow := and_0x7F_lt b1
  have hb1 := byte1_eq b1
  have hnat := payloadLen_toNat hext tail
  have hshort := payloadLen_toNat_of_short hext tail
  generalize payloadLen (b1 &&& 0x7F) (ext ++ tail) = n at *
  rw [lengthBytes_eq]
  by_cases h126 : b1 &&& 0x7F = 126
  · rw [h126] at hb1 hnat hext h
    have hpos : 125 < n.toNat := h.1 rfl
    have hlt : ofBE ext < 256 ^ 2 := by
      have hlen : ext.length = 2 := hext
      exact hlen ▸ ofBE_lt ext
    have heq : n.toNat = ofBE ext := hnat
    have hround := toBE_ofBE ext
    rw [hext] at hround
    rw [if_neg (by omega), if_pos (by omega), heq, hb1]
    exact congrArg _ hround
  · by_cases h127 : b1 &&& 0x7F = 127
    · rw [h127] at hb1 hnat hext h
      have hpos : 0xFFFF < n.toNat := h.2 rfl
      have heq : n.toNat = ofBE ext := hnat
      have hround := toBE_ofBE ext
      rw [hext] at hround
      rw [if_neg (by omega), if_neg (by omega), heq, hb1]
      exact congrArg _ hround
    · obtain ⟨rfl, heq⟩ := hshort h126 h127
      have h126' : (b1 &&& 0x7F).toNat ≠ 126 := fun h => h126 (UInt8.toNat_inj.mp h)
      have h127' : (b1 &&& 0x7F).toNat ≠ 127 := fun h => h127 (UInt8.toNat_inj.mp h)
      have hlen7 : n.toUInt8 = b1 &&& 0x7F := by
        apply UInt8.toNat_inj.mp
        rw [UInt64.toNat_toUInt8, heq]
        omega
      rw [if_pos (by omega), hlen7, hb1]

/-- A length that is not written in its shortest form is written in fewer bytes. -/
theorem length_lengthBytes_lt {b1 : UInt8} {ext : Bytes} (mask : Bool)
    (hext : ext.length = extLenBytes (b1 &&& 0x7F)) {n : UInt64}
    (h : ¬ShortestLength (b1 &&& 0x7F) n.toNat) :
    (lengthBytes mask n).length < (b1 :: ext).length := by
  rw [lengthBytes_eq, List.length_cons, hext]
  by_cases h126 : b1 &&& 0x7F = 126
  · have hle : n.toNat ≤ 125 := by
      by_contra hlt
      apply h
      rw [h126]
      exact ⟨fun _ => by omega, fun h => absurd h (by decide)⟩
    rw [if_pos hle, h126]
    exact (by decide : 1 < extLenBytes 126 + 1)
  · by_cases h127 : b1 &&& 0x7F = 127
    · have hle : n.toNat ≤ 0xFFFF := by
        by_contra hlt
        apply h
        rw [h127]
        exact ⟨fun h => absurd h (by decide), fun _ => by omega⟩
      rw [if_pos hle, h127]
      split_ifs
      · exact (by decide : 1 < extLenBytes 127 + 1)
      · rw [List.length_cons, length_toBE]
        decide
    · exact absurd ⟨fun h => absurd h h126, fun h => absurd h h127⟩ h

/-! ### The frame -/

/-- Masking again what was unmasked. -/
theorem mask_unmask (key : UInt32) (payload : Bytes) :
    (payload.mapIdx fun i b => b ^^^ unmaskOctet key i).mapIdx (fun i b => b ^^^ maskOctet key i)
      = payload := by
  have h := unmask_mask key payload
  simp only [unmaskOctet_eq_maskOctet] at h ⊢
  exact h

/-- What is written for a decoded frame: the key and the payload are the bytes that were read. -/
theorem writeFrame_decoded (b0 : UInt8) {b1 : UInt8} {n : UInt64} {key payload : Bytes}
    (hkey : key.length = if (b1 &&& 0x80 != 0) = true then 4 else 0)
    (hlen : payload.length = n.toNat) :
    writeFrame {
      fin := (b0 &&& 0x80) != 0
      opcode := b0 &&& 0x0F
      mask := (b1 &&& 0x80) != 0
      maskingKey := if (b1 &&& 0x80 != 0) = true then maskKey key else 0
      payloadLength := n
      payloadData := if (b1 &&& 0x80 != 0) = true
        then payload.mapIdx fun i b => b ^^^ unmaskOctet (maskKey key) i else payload }
    = ((b0 &&& 0x80 != 0).toUInt8 <<< 7 ||| false.toUInt8 <<< 6 ||| false.toUInt8 <<< 5
        ||| false.toUInt8 <<< 4 ||| (b0 &&& 0x0F &&& 0x0F))
      :: (lengthBytes (b1 &&& 0x80 != 0) n ++ key ++ payload) := by
  have hn : UInt64.ofNat payload.length = n := by
    rw [hlen, UInt64.ofNat_toNat]
  unfold writeFrame
  split_ifs at hkey ⊢ with hmask
  · rw [maskBytes_of_maskingKey hkey hmask rfl, List.length_mapIdx, hn, mask_unmask]
  · obtain rfl := List.length_eq_zero_iff.mp hkey
    rw [hn, maskBytes, if_neg hmask]
    simp [List.mapIdx_eq_zipIdx_map]

/-- The bytes that were consumed for a frame, and those that are written for it. -/
theorem take_of_decodeFrame {s : Bytes} {k : ℕ} {f : WsFrame}
    (h : decodeFrame s = some (f, s.drop k)) : ∃ b0 b1 ext key payload,
      s.headD 0 = b0 ∧ s.getD 1 0 = b1 ∧ s.take k = b0 :: b1 :: (ext ++ key ++ payload) ∧
      ext.length = extLenBytes (b1 &&& 0x7F) ∧
      f.payloadLength = payloadLen (b1 &&& 0x7F) (ext ++ key) ∧
      key.length = (if (b1 &&& 0x80 != 0) = true then 4 else 0) ∧
      writeFrame f = ((b0 &&& 0x80 != 0).toUInt8 <<< 7 ||| false.toUInt8 <<< 6
          ||| false.toUInt8 <<< 5 ||| false.toUInt8 <<< 4 ||| (b0 &&& 0x0F &&& 0x0F))
        :: (lengthBytes (b1 &&& 0x80 != 0) f.payloadLength ++ key ++ payload) := by
  obtain ⟨b0, b1, ext, key, payload, hs, hext, hkey, hlen⟩ := exists_of_decodeFrame h
  have hdecode : decodeFrame (b0 :: b1 :: (ext ++ key ++ payload ++ s.drop k)) = _ :=
    decodeFrame_append hext hkey hlen
  rw [← hs, h] at hdecode
  have hf := (Prod.mk.inj (Option.some.inj hdecode)).1
  have hn : f.payloadLength = payloadLen (b1 &&& 0x7F) (ext ++ key) := by rw [hf]
  have hwrite := writeFrame_decoded b0 hkey hlen
  rw [← hf, ← hn] at hwrite
  refine ⟨b0, b1, ext, key, payload, ?_, ?_, ?_, hext, hn, hkey, hwrite⟩
  · rw [hs]
    rfl
  · rw [hs]
    rfl
  · refine List.append_cancel_right (?_ : _ ++ s.drop k = _ ++ s.drop k)
    rw [List.take_append_drop]
    exact hs

/-- **Encoding a decoded frame** gives back the bytes that were consumed, if and only if these have
no reserved bit and the shortest length; a longer length makes the encoding shorter. -/
theorem writeFrame_of_decodeFrame {s : Bytes} {k : ℕ} {f : WsFrame} (hk : k ≤ s.length)
    (h : decodeFrame s = some (f, s.drop k)) :
    (writeFrame f = s.take k ↔ s.headD 0 &&& 0x70 = 0 ∧
      ShortestLength (s.getD 1 0 &&& 0x7F) f.payloadData.length) ∧
    (s.headD 0 &&& 0x70 = 0 → ¬ShortestLength (s.getD 1 0 &&& 0x7F) f.payloadData.length →
      (writeFrame f).length < k) := by
  obtain ⟨b0, b1, ext, key, payload, hb0, hb1, htake, hext, hn, hkey, hwrite⟩ :=
    take_of_decodeFrame h
  have hk' : k = (b0 :: b1 :: (ext ++ key ++ payload)).length := by
    rw [← htake, List.length_take_of_le hk]
  have hshort := lengthBytes_payloadLen hext key
  have hlong := fun h => length_lengthBytes_lt (b1 &&& 0x80 != 0) hext (n := f.payloadLength) h
  rw [← hn] at hshort
  rw [hb0, hb1, ← payloadLength_of_decodeFrame h, hwrite, htake, hk', List.cons.injEq,
    byte0_eq_iff]
  have hcancel : lengthBytes (b1 &&& 0x80 != 0) f.payloadLength ++ key ++ payload
      = b1 :: (ext ++ key ++ payload)
      ↔ lengthBytes (b1 &&& 0x80 != 0) f.payloadLength = b1 :: ext := by
    rw [← List.cons_append, ← List.cons_append, List.append_cancel_right_eq,
      List.append_cancel_right_eq]
  constructor
  · rw [hcancel]
    apply and_congr_right
    intro _
    refine ⟨fun heq => ?_, hshort⟩
    -- a longer form would have been written in fewer bytes
    by_contra hnot
    have hlt := hlong hnot
    rw [heq] at hlt
    exact lt_irrefl _ hlt
  · intro _ hnot
    have hlt := hlong hnot
    simp only [List.length_cons, List.length_append] at hlt ⊢
    omega

/-- An empty masked text frame, with its length in the 16-bit form. -/
theorem writeFrame_of_decodeFrame_longLength :
    ∃ f, decodeFrame [0x81, 0xFE, 0, 0, 1, 2, 3, 4, 7] = some (f, [7]) ∧
      (writeFrame f).length < 8 :=
  ⟨{ fin := true, opcode := 1, mask := true, maskingKey := 0x01020304 }, by rfl,
    (writeFrame_of_decodeFrame (s := [0x81, 0xFE, 0, 0, 1, 2, 3, 4, 7]) (k := 8) (by decide)
      (by rfl)).2 (by decide) (by decide)⟩

end WebSocketsLib
