import WebSocketsLib.Client.Frames
import WebSocketsLib.WebSocket.Equiv.WsFrame

/-!
# The client's frames and the server's

`makeFrameText_agrees`: `make_frame_text` writes what `write_frame` writes for a masked text frame.

`exec_readFrame_agrees`: the frames that `read_frame` returns are those that the server decodes from
the same bytes, as far as the client takes them.
-/

namespace WebSocketsLib

namespace WebSocketClient

open BigEndian Reader

/-! ### Waiting for more -/

theorem incremental_readLength (len : UInt64) : Incremental .eof (readLength len) := by
  unfold readLength
  apply Incremental.ite
  · exact (Incremental.readExactly 2).bind fun _ => Incremental.pure _
  · apply Incremental.ite
    · exact (Incremental.readExactly 8).bind fun _ => Incremental.pure _
    · exact Incremental.pure _

theorem incremental_readPayload (fin masked : Bool) (opcode : UInt8) (len : UInt64)
    (maskKey : Bytes) : Incremental .eof (readPayload fin masked opcode len maskKey) := by
  have hbody : Incremental .eof (readBody len) :=
    Incremental.ite (Incremental.readExactly _) (Incremental.pure _)
  unfold readPayload
  apply Incremental.ite
  · exact Incremental.throw _
  · apply hbody.bind
    intro payload
    exact Incremental.ite (Incremental.throw _) (Incremental.pure _)

/-- **`read_frame` waits** for the rest of a frame, and reads nothing behind it. -/
theorem incremental_readFrame : Incremental .eof readFrame := by
  have hkey : ∀ masked, Incremental .eof (readMaskKey masked) :=
    fun _ => Incremental.ite (Incremental.readExactly _) (Incremental.pure _)
  unfold readFrame
  apply (Incremental.readExactly 2).bind
  intro header
  apply Incremental.ite
  · exact Incremental.throw _
  · apply Incremental.ite
    · exact Incremental.throw _
    · apply (incremental_readLength _).bind
      intro len
      apply (hkey _).bind
      intro maskKey
      exact incremental_readPayload _ _ _ len maskKey

/-! ### The two decoders -/

theorem exec_readAny_append {n : ℕ} {x : Bytes} (h : x.length = n) (s : Bytes) :
    (readAny n).exec (x ++ s) = (.ok x, s) := by
  rw [← h]
  exact exec_readExactly_append ClientError.eof x s

/-- The length, from the bytes that the server takes it from. -/
theorem exec_readLength {len7 : UInt8} {ext : Bytes} (hext : ext.length = extLenBytes len7)
    (key s : Bytes) :
    (readLength len7.toUInt64).exec (ext ++ s) = (.ok (payloadLen len7 (ext ++ key)), s) := by
  have hiff : ∀ n : UInt8, len7.toUInt64 = n.toUInt64 ↔ len7 = n := by
    intro n
    rw [← UInt64.toNat_inj, ← UInt8.toNat_inj, UInt8.toNat_toUInt64, UInt8.toNat_toUInt64]
  unfold readLength
  split_ifs with h126 h127
  · obtain rfl : len7 = 126 := (hiff 126).mp h126
    obtain ⟨x, y, rfl⟩ := List.length_eq_two.mp hext
    rw [exec_bind_of_ok _ (exec_readAny_append (n := 2) (x := [x, y]) rfl s)]
    rfl
  · obtain rfl : len7 = 127 := (hiff 127).mp h127
    have hlen : ext.length = 8 := hext
    rw [exec_bind_of_ok _ (exec_readAny_append hlen s), payloadLen, if_neg (by decide),
      if_neg (by decide), ← hlen, List.take_left]
    rfl
  · have hnone : extLenBytes len7 = 0 := by
      rw [extLenBytes, if_neg (fun h => h126 ((hiff 126).mpr h)),
        if_neg (fun h => h127 ((hiff 127).mpr h))]
    rw [hnone] at hext
    rw [List.length_eq_zero_iff.mp hext, payloadLen, if_pos hnone]
    rfl

theorem exec_readMaskKey {masked : Bool} {key : Bytes}
    (hkey : key.length = if masked = true then 4 else 0) (s : Bytes) :
    (readMaskKey masked).exec (key ++ s)
      = (.ok (if masked = true then key else [0, 0, 0, 0]), s) := by
  unfold readMaskKey
  split_ifs at hkey ⊢
  · exact exec_readAny_append hkey s
  · rw [List.length_eq_zero_iff.mp hkey]
    rfl

theorem exec_readBody {payload : Bytes} {len : UInt64} (hlen : payload.length = len.toNat)
    (s : Bytes) : (readBody len).exec (payload ++ s) = (.ok payload, s) := by
  unfold readBody
  split_ifs with hpos
  · exact exec_readAny_append hlen s
  · have hzero : len.toNat = 0 := Nat.eq_zero_of_not_pos hpos
    rw [List.length_eq_zero_iff.mp (hlen.trans hzero)]
    rfl

/-- `read_frame` on a header and payload whose sizes fit the header's second byte. -/
theorem exec_readFrame_append {b0 b1 : UInt8} {ext key payload t : Bytes}
    (hrsv : b0 &&& 0x70 = 0) (hknown : knownOpcode (b0 &&& 0x0F) = true)
    (hopen : b0 &&& 0x0F ≠ 0x8)
    (hext : ext.length = extLenBytes (b1 &&& 0x7F))
    (hkey : key.length = if (b1 &&& 0x80 != 0) = true then 4 else 0)
    (hmax : payloadLen (b1 &&& 0x7F) (ext ++ key) ≤ maxFramePayload)
    (hlen : payload.length = (payloadLen (b1 &&& 0x7F) (ext ++ key)).toNat) :
    readFrame.exec (b0 :: b1 :: (ext ++ key ++ payload ++ t)) = (.ok {
      opcode := b0 &&& 0x0F
      fin := (b0 &&& 0x80) != 0
      payload := if (b1 &&& 0x80 != 0) = true
        then payload.mapIdx fun i b => b ^^^ unmaskOctet (maskKey key) i else payload }, t) := by
  have hheader : (readAny 2).exec (b0 :: b1 :: (ext ++ (key ++ (payload ++ t))))
      = (.ok [b0, b1], ext ++ (key ++ (payload ++ t))) :=
    exec_readAny_append (x := [b0, b1]) rfl _
  rw [List.append_assoc, List.append_assoc]
  unfold readFrame
  rw [exec_bind_of_ok _ hheader]
  rw [List.getD_cons_succ, List.getD_cons_zero, List.getD_cons_zero]
  rw [if_neg (not_not.mpr hrsv), hknown, if_neg (by decide),
    exec_bind_of_ok _ (exec_readLength hext key _),
    exec_bind_of_ok _ (exec_readMaskKey hkey _)]
  unfold readPayload
  rw [if_neg (by rw [gt_iff_lt, UInt64.not_lt]; exact hmax),
    exec_bind_of_ok _ (exec_readBody hlen t)]
  dsimp only
  rw [if_neg hopen, exec_pure]
  split_ifs with hmask
  · rw [if_pos hmask] at hkey
    simp only [unmaskOctet_maskKey hkey]
  · rfl

/-- **Where the server decodes a frame**, the client's `read_frame` returns it and leaves the same
bytes, if the frame is one that the client takes. -/
theorem exec_readFrame_of_decodeFrame {s t : Bytes} {f : WsFrame}
    (h : decodeFrame s = some (f, t)) (hrsv : s.headD 0 &&& 0x70 = 0)
    (hknown : knownOpcode f.opcode = true) (hopen : f.opcode ≠ 0x8)
    (hmax : f.payloadLength ≤ maxFramePayload) : readFrame.exec s
      = (.ok { opcode := f.opcode, fin := f.fin, payload := f.payloadData }, t) := by
  obtain ⟨b0, b1, ext, key, payload, rfl, hext, hkey, hlen⟩ := exists_of_decodeFrame h
  rw [decodeFrame_append hext hkey hlen] at h
  obtain ⟨rfl, -⟩ := Prod.mk.inj (Option.some.inj h)
  exact exec_readFrame_append hrsv hknown hopen hext hkey hmax hlen

/-- The extended length is of the size that the header announces. -/
theorem exec_readLength_eq_ok {len7 : UInt8} {len : UInt64} {s t : Bytes}
    (h : (readLength len7.toUInt64).exec s = (.ok len, t)) :
    ∃ ext, s = ext ++ t ∧ ext.length = extLenBytes len7 := by
  have hiff : ∀ n : UInt8, len7.toUInt64 = n.toUInt64 ↔ len7 = n := by
    intro n
    rw [← UInt64.toNat_inj, ← UInt8.toNat_inj, UInt8.toNat_toUInt64, UInt8.toNat_toUInt64]
  unfold readLength at h
  split_ifs at h with h126 h127
  · obtain ⟨ext, s', hext, hpure⟩ := exec_bind_eq_ok h
    obtain ⟨hs, hlen⟩ := exec_readExactly_eq_ok hext
    obtain ⟨-, rfl⟩ := Prod.mk.inj hpure
    exact ⟨ext, hs, by rw [hlen, (hiff 126).mp h126]; rfl⟩
  · obtain ⟨ext, s', hext, hpure⟩ := exec_bind_eq_ok h
    obtain ⟨hs, hlen⟩ := exec_readExactly_eq_ok hext
    obtain ⟨-, rfl⟩ := Prod.mk.inj hpure
    exact ⟨ext, hs, by rw [hlen, (hiff 127).mp h127]; rfl⟩
  · obtain ⟨-, rfl⟩ := Prod.mk.inj h
    refine ⟨[], rfl, ?_⟩
    rw [extLenBytes, if_neg (fun h => h126 ((hiff 126).mpr h)),
      if_neg (fun h => h127 ((hiff 127).mpr h))]
    rfl

theorem exec_readMaskKey_eq_ok {masked : Bool} {maskKey s t : Bytes}
    (h : (readMaskKey masked).exec s = (.ok maskKey, t)) :
    ∃ key, s = key ++ t ∧ key.length = if masked = true then 4 else 0 := by
  unfold readMaskKey at h
  split_ifs at h ⊢ with hmasked
  · exact ⟨maskKey, exec_readExactly_eq_ok h⟩
  · obtain ⟨-, rfl⟩ := Prod.mk.inj h
    exact ⟨[], rfl, rfl⟩

theorem exec_readPayload_eq_ok {fin masked : Bool} {opcode : UInt8} {len : UInt64}
    {maskKey s t : Bytes} {f : WsInFrame}
    (h : (readPayload fin masked opcode len maskKey).exec s = (.ok f, t)) :
    len ≤ maxFramePayload ∧ opcode ≠ 0x8 ∧ ∃ payload, s = payload ++ t ∧
      payload.length = len.toNat := by
  unfold readPayload at h
  by_cases hmax : len > maxFramePayload
  · rw [if_pos hmax] at h
    nomatch congrArg Prod.fst h
  · rw [if_neg hmax] at h
    obtain ⟨payload, s', hbody, hreturn⟩ := exec_bind_eq_ok h
    dsimp only at hreturn
    by_cases hopcode : opcode = 0x8
    · rw [if_pos hopcode] at hreturn
      nomatch congrArg Prod.fst hreturn
    · rw [if_neg hopcode] at hreturn
      obtain ⟨-, rfl⟩ := Prod.mk.inj hreturn
      refine ⟨UInt64.not_lt.mp hmax, hopcode, payload, ?_⟩
      unfold readBody at hbody
      split_ifs at hbody with hpos
      · exact exec_readExactly_eq_ok hbody
      · obtain ⟨hnil, rfl⟩ := Prod.mk.inj hbody
        obtain rfl := Except.ok.inj hnil
        have hzero : len.toNat = 0 := Nat.eq_zero_of_not_pos hpos
        exact ⟨rfl, hzero.symm⟩

/-- The bytes of a frame that `read_frame` returns, and what is behind them. -/
theorem exists_of_exec_readFrame {s t : Bytes} {f : WsInFrame}
    (h : readFrame.exec s = (.ok f, t)) :
    ∃ b0 b1 ext key payload, s = b0 :: b1 :: (ext ++ key ++ payload ++ t) ∧
      b0 &&& 0x70 = 0 ∧ knownOpcode (b0 &&& 0x0F) = true ∧ b0 &&& 0x0F ≠ 0x8 ∧
      ext.length = extLenBytes (b1 &&& 0x7F) ∧
      key.length = (if (b1 &&& 0x80 != 0) = true then 4 else 0) ∧
      payloadLen (b1 &&& 0x7F) (ext ++ key) ≤ maxFramePayload ∧
      payload.length = (payloadLen (b1 &&& 0x7F) (ext ++ key)).toNat := by
  unfold readFrame at h
  obtain ⟨header, s₁, hheader, h₁⟩ := exec_bind_eq_ok h
  obtain ⟨hs, hlen⟩ := exec_readExactly_eq_ok hheader
  obtain ⟨b0, b1, rfl⟩ := List.length_eq_two.mp hlen
  rw [List.getD_cons_succ, List.getD_cons_zero, List.getD_cons_zero] at h₁
  dsimp only at h₁
  split_ifs at h₁ with hrsv hknown
  · nomatch congrArg Prod.fst h₁
  · nomatch congrArg Prod.fst h₁
  · obtain ⟨len, s₂, hreadLength, h₂⟩ := exec_bind_eq_ok h₁
    obtain ⟨ext, rfl, hext⟩ := exec_readLength_eq_ok hreadLength
    obtain ⟨maskKey, s₃, hreadKey, h₃⟩ := exec_bind_eq_ok h₂
    obtain ⟨key, rfl, hkey⟩ := exec_readMaskKey_eq_ok hreadKey
    obtain ⟨hmax, hopen, payload, rfl, hpayload⟩ := exec_readPayload_eq_ok h₃
    -- the length that was read is the server's
    have hlength := exec_readLength hext key (key ++ (payload ++ t))
    rw [hreadLength] at hlength
    obtain rfl := Except.ok.inj (Prod.mk.inj hlength).1
    refine ⟨b0, b1, ext, key, payload, ?_, not_not.mp hrsv, ?_, hopen, hext, hkey, hmax,
      hpayload⟩
    · rw [hs, List.append_assoc, List.append_assoc]
      rfl
    · rwa [Bool.not_eq_true, Bool.not_eq_false'] at hknown

/-- **Where `read_frame` returns a frame**, the server decodes it and leaves the same bytes. -/
theorem decodeFrame_of_exec_readFrame {s t : Bytes} {f : WsInFrame}
    (h : readFrame.exec s = (.ok f, t)) : ∃ g, decodeFrame s = some (g, t) ∧
      f = { opcode := g.opcode, fin := g.fin, payload := g.payloadData } := by
  obtain ⟨b0, b1, ext, key, payload, rfl, hrsv, hknown, hopen, hext, hkey, hmax, hlen⟩ :=
    exists_of_exec_readFrame h
  rw [exec_readFrame_append hrsv hknown hopen hext hkey hmax hlen] at h
  obtain ⟨hf, -⟩ := Prod.mk.inj h
  exact ⟨_, decodeFrame_append hext hkey hlen, (Except.ok.inj hf).symm⟩

/-- **The two decoders agree**: the server decodes every frame that `read_frame` returns, with the
same bytes, and `read_frame` returns every frame that the server decodes and the client takes. -/
theorem exec_readFrame_agrees (s : Bytes) :
    (∀ f t, readFrame.exec s = (.ok f, t) → ∃ g k, k ≤ s.length ∧ t = s.drop k ∧
      decodeFrame s = some (g, s.drop k) ∧ g.fin = f.fin ∧ g.opcode = f.opcode ∧
      g.payloadData = f.payload) ∧
    ∀ g t, decodeFrame s = some (g, t) → s.headD 0 &&& 0x70 = 0 →
      g.opcode ∈ ([0x0, 0x1, 0x2, 0x9, 0xA] : List UInt8) →
      g.payloadData.length ≤ 8 * 1024 * 1024 → readFrame.exec s
        = (.ok { opcode := g.opcode, fin := g.fin, payload := g.payloadData }, t) := by
  have htaken : ∀ opcode : UInt8, opcode ∈ ([0x0, 0x1, 0x2, 0x9, 0xA] : List UInt8) →
      knownOpcode opcode = true ∧ opcode ≠ 0x8 := by
    intro opcode hmem
    simp only [List.mem_cons, List.not_mem_nil, or_false] at hmem
    rcases hmem with rfl | rfl | rfl | rfl | rfl <;> decide
  constructor
  · intro f t h
    obtain ⟨g, hdecode, rfl⟩ := decodeFrame_of_exec_readFrame h
    obtain ⟨k, hk, rfl⟩ := eq_drop_of_decodeFrame hdecode
    exact ⟨g, k, hk, rfl, hdecode, rfl, rfl, rfl⟩
  · intro g t hdecode hrsv hopcode hmax
    obtain ⟨hknown, hopen⟩ := htaken g.opcode hopcode
    apply exec_readFrame_of_decodeFrame hdecode hrsv hknown hopen
    show g.payloadLength.toNat ≤ _
    rw [payloadLength_of_decodeFrame hdecode]
    exact hmax

/-- The reserved bits of a frame that has none. -/
theorem rsv_writeFrame {f : WsFrame} (h1 : f.rsv1 = false) (h2 : f.rsv2 = false)
    (h3 : f.rsv3 = false) (t : Bytes) : (writeFrame f ++ t).headD 0 &&& 0x70 = 0 := by
  show (f.fin.toUInt8 <<< 7 ||| f.rsv1.toUInt8 <<< 6 ||| f.rsv2.toUInt8 <<< 5
    ||| f.rsv3.toUInt8 <<< 4 ||| (f.opcode &&& 0x0F)) &&& 0x70 = 0
  have hop : f.opcode &&& 0x0F &&& 0x70 = 0 := by
    rw [UInt8.and_assoc, show (0x0F : UInt8) &&& 0x70 = 0 by decide, UInt8.and_zero]
  rw [h1, h2, h3, or_and_distrib_right, hop]
  cases f.fin
  · decide
  · decide

/-- **`read_frame` inverts `write_frame`** on the frames that the client takes. -/
theorem exec_readFrame_writeFrame {f : WsFrame} (h1 : f.rsv1 = false) (h2 : f.rsv2 = false)
    (h3 : f.rsv3 = false) (hop : f.opcode < 16) (hknown : knownOpcode f.opcode = true)
    (hopen : f.opcode ≠ 0x8) (hmax : f.payloadData.length ≤ 8 * 1024 * 1024) (t : Bytes) :
    readFrame.exec (writeFrame f ++ t)
      = (.ok { opcode := f.opcode, fin := f.fin, payload := f.payloadData }, t) := by
  have hlen : f.payloadData.length < 2 ^ 64 := by omega
  apply exec_readFrame_of_decodeFrame (decodeFrame_writeFrame f hop hlen t)
    (rsv_writeFrame h1 h2 h3 t) hknown hopen
  show (UInt64.ofNat f.payloadData.length).toNat ≤ _
  rw [UInt64.toNat_ofNat', Nat.mod_eq_of_lt hlen]
  exact hmax

/-! ### A message in one frame -/

/-- What the members hold when a message has been returned. -/
def Assembly.between (opcode : UInt8) : Assembly where
  opcode := opcode

/-- A round for a data frame. -/
theorem handleFrame_data {a : Assembly} {f : WsInFrame} (h : f.opcode = 0x1 ∨ f.opcode = 0x2) :
    handleFrame a f = if a.assembling then
        (.error .expectedContinuation, { a with assembling := false, buf := [] })
      else if f.fin then (.ok (some { opcode := f.opcode, payload := f.payload }),
        Assembly.between f.opcode)
      else (.ok none, { assembling := true, opcode := f.opcode, buf := f.payload }) := by
  unfold handleFrame
  rcases h with h | h
  · rw [h]
    cases a.assembling <;> rfl
  · rw [h]
    cases a.assembling <;> rfl

/-- What `read_message` does with a first frame that is final. -/
theorem readMessage_of_readFrame {a : Assembly} {s t : Bytes} {f : WsInFrame}
    (ha : a.assembling = false) (hop : f.opcode = 0x1 ∨ f.opcode = 0x2) (hfin : f.fin = true)
    (h : readFrame.exec s = (.ok f, t)) : readMessage a s
      = (.ok { opcode := f.opcode, payload := f.payload }, Assembly.between f.opcode, t) := by
  have hround : handleFrame a f
      = (.ok (some { opcode := f.opcode, payload := f.payload }), Assembly.between f.opcode) := by
    rw [handleFrame_data hop, ha, hfin]
    rfl
  rw [readMessage, readMessageLoop, h]
  dsimp only
  rw [hround]

theorem readMessage_of_error {s t : Bytes} {e : ClientError} (a : Assembly)
    (h : readFrame.exec s = (.error e, t)) : readMessage a s = (.error e, a, t) := by
  rw [readMessage, readMessageLoop, h]

/-- **A text message that arrives**: `read_message` waits for the rest of its frame, or returns it
and leaves what is behind it. -/
theorem readMessage_of_append {a : Assembly} {s v rest msg : Bytes} (ha : a.assembling = false)
    (hmax : msg.length ≤ 8 * 1024 * 1024)
    (h : s ++ v = writeFrame { fin := true, opcode := 1, payloadData := msg } ++ rest) :
    (readMessage a s).1 = .error .eof ∨ ∃ t, readMessage a s
      = (.ok { opcode := 1, payload := msg }, Assembly.between 1, t) ∧ t ++ v = rest := by
  have hexec := exec_readFrame_writeFrame (f := { fin := true, opcode := 1, payloadData := msg })
    rfl rfl rfl (by decide : (1 : UInt8) < 16) (by decide : knownOpcode 1 = true)
    (by decide : (1 : UInt8) ≠ 0x8) hmax rest
  rw [← h] at hexec
  rcases incremental_readFrame.of_append hexec with heof | ⟨t, hread, ht⟩
  · left
    rw [readMessage_of_error a (Prod.ext heof rfl)]
  · right
    exact ⟨t, readMessage_of_readFrame ha (Or.inl rfl) rfl hread, ht⟩

/-! ### The two encoders -/

/-- The frame that `make_frame_text` writes. -/
def textFrame (maskBytes : Vector UInt8 4) (msg : Bytes) : WsFrame where
  fin := true
  opcode := 1
  mask := true
  maskingKey := maskKey maskBytes.toList
  payloadLength := UInt64.ofNat msg.length
  payloadData := msg

theorem maskOctet_maskKey (m : Vector UInt8 4) (i : ℕ) :
    maskOctet (maskKey m.toList) i = m.get ⟨i % 4, Nat.mod_lt i (by decide)⟩ := by
  rw [← unmaskOctet_eq_maskOctet, unmaskOctet_maskKey (Vector.length_toList),
    List.getD_eq_getElem _ _
    (by rw [Vector.length_toList]; exact Nat.mod_lt i (by decide)), Vector.getElem_toList]
  rfl

/-- The length, with the mask bit set. -/
theorem lengthBytes_masked (len : UInt64) : lengthBytes true len =
    if len < 126 then [0x80 ||| len.toUInt8]
    else if len ≤ 0xFFFF then
      [0x80 ||| 126, (len >>> 8 &&& 0xFF).toUInt8, (len &&& 0xFF).toUInt8]
    else (0x80 ||| 127) ::
      ([7, 6, 5, 4, 3, 2, 1, 0] : List UInt64).map fun i => (len >>> (8 * i) &&& 0xFF).toUInt8 := by
  have hiff : len ≤ 125 ↔ len < 126 := Nat.lt_succ_iff.symm
  unfold lengthBytes
  dsimp only
  rw [if_congr hiff rfl rfl]
  rfl

/-- **`make_frame_text`** writes the same bytes as `write_frame`. -/
theorem makeFrameText_eq (m : Vector UInt8 4) (msg : Bytes) :
    makeFrameText m msg = writeFrame (textFrame m msg) := by
  have hkey : maskBytes (textFrame m msg) = m.toList :=
    maskBytes_of_maskingKey Vector.length_toList rfl rfl
  unfold makeFrameText writeFrame
  rw [hkey]
  dsimp only [textFrame]
  rw [lengthBytes_masked]
  simp only [maskOctet_maskKey, if_true]
  rfl

/-- **The two encoders agree**: `make_frame_text` writes what `write_frame` writes for the masked
text frame whose key is the big-endian number of the mask bytes, whatever `payload_length` is. -/
theorem makeFrameText_agrees (m : Vector UInt8 4) (msg : Bytes) (payloadLength : UInt64) :
    makeFrameText m msg = writeFrame {
      fin := true
      rsv1 := false
      rsv2 := false
      rsv3 := false
      opcode := 1
      mask := true
      maskingKey := UInt32.ofNat (ofBE m.toList)
      payloadLength := payloadLength
      payloadData := msg } := by
  have hkey : maskKey m.toList = UInt32.ofNat (ofBE m.toList) := by
    obtain ⟨a, b, c, d, heq⟩ := List.length_eq_four.mp (Vector.length_toList : _ = 4)
    have hlt : ofBE [a, b, c, d] < 256 ^ 4 := ofBE_lt [a, b, c, d]
    have hpow : 256 ^ 4 = 2 ^ 32 := by norm_num
    apply UInt32.toNat_inj.mp
    rw [heq, maskKey_toNat, UInt32.toNat_ofNat', Nat.mod_eq_of_lt (hpow ▸ hlt)]
  rw [makeFrameText_eq, textFrame, hkey]
  rfl

/-- The server decodes the frame that `send_binary` has built. -/
theorem decodeFrame_sendBinary (maskingKey : UInt32) {data : Bytes} (hlen : data.length < 2 ^ 64)
    (t : Bytes) : decodeFrame (sendBinary false maskingKey data ++ t)
      = some (binaryOut maskingKey data, t) := by
  have hop : (0x2 : UInt8) < 16 := by decide
  exact decodeFrame_writeFrame (binaryOut maskingKey data) hop hlen t

/-- The server decodes the frame that `send_close` has built. -/
theorem decodeFrame_sendClose (maskingKey : UInt32) (code : UInt16) (t : Bytes) :
    decodeFrame (sendClose false maskingKey code ++ t) = some (closeOut maskingKey code, t) := by
  have hop : (0x8 : UInt8) < 16 := by decide
  have hlen : 2 < 2 ^ 64 := by omega
  exact decodeFrame_writeFrame (closeOut maskingKey code) hop hlen t

end WebSocketClient

end WebSocketsLib
