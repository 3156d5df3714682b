import WebSocketsLib.Client.Equiv.ReceiveLoop
import WebSocketsLib.WebSocket.Equiv.Accepted

/-!
# What the receive loop makes of the server's frames

`ReceiveLoop.goOn_frames`: on any beginning of a stream of data and Close frames the loop prints the
text messages in front of the first Close frame, the first frame that is too large and the end of
what has arrived.
-/

namespace WebSocketsLib

open Reader WebSocketClient

namespace WebSocketClient

/-! ### `read_frame` on a Close frame and on a frame that is too large -/

/-- `read_frame`, when it has taken the header. -/
theorem exec_readFrame_header {b0 b1 : UInt8} {ext key : Bytes} (hrsv : b0 &&& 0x70 = 0)
    (hknown : knownOpcode (b0 &&& 0x0F) = true) (hext : ext.length = extLenBytes (b1 &&& 0x7F))
    (hkey : key.length = if (b1 &&& 0x80 != 0) = true then 4 else 0) (t : Bytes) :
    ∃ maskKey, readFrame.exec (b0 :: b1 :: (ext ++ key ++ t))
      = (readPayload ((b0 &&& 0x80) != 0) ((b1 &&& 0x80) != 0) (b0 &&& 0x0F)
        (payloadLen (b1 &&& 0x7F) (ext ++ key)) maskKey).exec t := by
  have hheader : (readAny 2).exec (b0 :: b1 :: (ext ++ (key ++ t)))
      = (.ok [b0, b1], ext ++ (key ++ t)) :=
    exec_readAny_append (x := [b0, b1]) rfl _
  rw [List.append_assoc]
  unfold readFrame
  rw [exec_bind_of_ok _ hheader]
  rw [List.getD_cons_succ, List.getD_cons_zero, List.getD_cons_zero]
  rw [if_neg (not_not.mpr hrsv), hknown, if_neg (by decide),
    exec_bind_of_ok _ (exec_readLength hext key _),
    exec_bind_of_ok _ (exec_readMaskKey hkey _)]
  exact ⟨_, rfl⟩

/-- **Where the server decodes a frame**, the client throws if the frame is too large. -/
theorem exec_readFrame_tooLarge {s t : Bytes} {f : WsFrame} (h : decodeFrame s = some (f, t))
    (hrsv : s.headD 0 &&& 0x70 = 0) (hknown : knownOpcode f.opcode = true)
    (hlarge : f.payloadLength > maxFramePayload) :
    (readFrame.exec s).1 = .error (.frameTooLarge f.payloadLength) := by
  obtain ⟨b0, b1, ext, key, payload, rfl, hext, hkey, hlen⟩ := exists_of_decodeFrame h
  rw [decodeFrame_append hext hkey hlen] at h
  obtain ⟨rfl, -⟩ := Prod.mk.inj (Option.some.inj h)
  have hrsv0 : b0 &&& 0x70 = 0 := hrsv
  obtain ⟨maskKey, heq⟩ := exec_readFrame_header hrsv0 hknown hext hkey (payload ++ t)
  rw [← List.append_assoc] at heq
  rw [heq]
  unfold readPayload
  rw [if_pos hlarge]
  rfl

/-- **Where the server decodes a Close frame**, the client throws, if the frame is not too large. -/
theorem exec_readFrame_closed {s t : Bytes} {f : WsFrame} (h : decodeFrame s = some (f, t))
    (hrsv : s.headD 0 &&& 0x70 = 0) (hclose : f.opcode = 0x8)
    (hmax : f.payloadLength ≤ maxFramePayload) : (readFrame.exec s).1 = .error .closed := by
  obtain ⟨b0, b1, ext, key, payload, rfl, hext, hkey, hlen⟩ := exists_of_decodeFrame h
  rw [decodeFrame_append hext hkey hlen] at h
  obtain ⟨rfl, -⟩ := Prod.mk.inj (Option.some.inj h)
  have hrsv0 : b0 &&& 0x70 = 0 := hrsv
  have hop : b0 &&& 0x0F = 0x8 := hclose
  have hknown : knownOpcode (b0 &&& 0x0F) = true := by
    rw [hop]
    decide
  obtain ⟨maskKey, heq⟩ := exec_readFrame_header hrsv0 hknown hext hkey (payload ++ t)
  rw [← List.append_assoc] at heq
  rw [heq]
  unfold readPayload
  rw [if_neg (by rw [gt_iff_lt, UInt64.not_lt]; exact hmax),
    exec_bind_of_ok _ (exec_readBody hlen t)]
  dsimp only
  rw [if_pos hop]
  rfl

end WebSocketClient

/-! ### The frames of the server -/

/-- The client takes a frame of 8 MiB at most. -/
def WsFrame.taken (f : WsFrame) : Bool :=
  decide (f.payloadData.length ≤ 8 * 1024 * 1024)

/-- The frames that the client reads: the messages in front of the first Close frame and of the
first frame that is too large. -/
def readable (frames : List WsFrame) : List WsFrame :=
  frames.takeWhile fun f => f.isMessage && f.taken

/-- What ends the reading of the frames. -/
def readingEnd (frames : List WsFrame) : ClientError :=
  match frames.dropWhile fun f => f.isMessage && f.taken with
  | [] => .eof
  | f :: _ => if f.taken then .closed else .frameTooLarge (UInt64.ofNat f.payloadData.length)

/-- What is printed for a frame. -/
def printFrame (f : WsFrame) : List Printed :=
  if f.opcode = wsText then [.text f.payloadData] else []

theorem ServerFrame.shape {f : WsFrame} (h : ServerFrame f) :
    f.fin = true ∧ f.rsv1 = false ∧ f.rsv2 = false ∧ f.rsv3 = false ∧
      (f.opcode = wsText ∨ f.opcode = wsBinary ∨ f.opcode = wsClose) := by
  cases h with
  | data opcode payload hop =>
    exact ⟨rfl, rfl, rfl, rfl, hop.imp_right Or.inl⟩
  | close code reason => exact ⟨rfl, rfl, rfl, rfl, Or.inr (Or.inr rfl)⟩

/-- What the server's frame is for `read_frame`. -/
theorem exec_readFrame_serverFrame {f : WsFrame} (h : ServerFrame f)
    (hlen : f.payloadData.length < 2 ^ 64) (t : Bytes) :
    (f.isMessage = true ∧ f.taken = true ∧ readFrame.exec (writeFrame f ++ t)
      = (.ok { opcode := f.opcode, fin := true, payload := f.payloadData }, t)) ∨
    ∃ e, (f.isMessage && f.taken) = false ∧
      e = (if f.taken then .closed else .frameTooLarge (UInt64.ofNat f.payloadData.length)) ∧
      (readFrame.exec (writeFrame f ++ t)).1 = .error e := by
  obtain ⟨hfin, h1, h2, h3, hop⟩ := h.shape
  have hlt : f.opcode < 16 := by
    rcases hop with hop | hop | hop
    · rw [hop]; decide
    · rw [hop]; decide
    · rw [hop]; decide
  have hknown : knownOpcode f.opcode = true := by
    rcases hop with hop | hop | hop
    · rw [hop]; decide
    · rw [hop]; decide
    · rw [hop]; decide
  have hdecode := decodeFrame_writeFrame f hlt hlen t
  have hrsv := rsv_writeFrame h1 h2 h3 t
  have hnat : (UInt64.ofNat f.payloadData.length).toNat = f.payloadData.length := by
    rw [UInt64.toNat_ofNat', Nat.mod_eq_of_lt hlen]
  cases htaken : f.taken with
  | false =>
    right
    refine ⟨_, Bool.and_false _, rfl, ?_⟩
    rw [if_neg Bool.false_ne_true]
    apply exec_readFrame_tooLarge hdecode hrsv hknown
    show maxFramePayload.toNat < (UInt64.ofNat f.payloadData.length).toNat
    rw [hnat]
    exact Nat.lt_of_not_le (of_decide_eq_false htaken)
  | true =>
    have hmax : f.payloadData.length ≤ 8 * 1024 * 1024 := of_decide_eq_true htaken
    rcases hop with hop | hop | hop
    · left
      refine ⟨by rw [WsFrame.isMessage, hop]; rfl, rfl, ?_⟩
      have hread := exec_readFrame_writeFrame h1 h2 h3 hlt hknown
        (by rw [hop]; decide) hmax t
      rwa [hfin] at hread
    · left
      refine ⟨by rw [WsFrame.isMessage, hop]; rfl, rfl, ?_⟩
      have hread := exec_readFrame_writeFrame h1 h2 h3 hlt hknown
        (by rw [hop]; decide) hmax t
      rwa [hfin] at hread
    · right
      refine ⟨_, by rw [WsFrame.isMessage, hop]; rfl, rfl, ?_⟩
      rw [if_pos rfl]
      apply exec_readFrame_closed hdecode hrsv hop
      show (UInt64.ofNat f.payloadData.length).toNat ≤ maxFramePayload.toNat
      rw [hnat]
      exact hmax

namespace ReceiveLoop

/-- The exception of the first call. -/
theorem EndsIn.eq_of_error {a a' : Assembly} {s t : Bytes} {e e' : ClientError}
    (h : EndsIn a s e') (hread : readMessage a s = (.error e, a', t)) : e' = e := by
  cases h with
  | throws _ a'' u heq =>
    rw [hread] at heq
    exact (Except.error.inj (Prod.mk.inj heq).1).symm
  | goesOn m a'' u heq hrest =>
    rw [hread] at heq
    cases heq

/-- The exceptions behind a message. -/
theorem EndsIn.of_ok {a a' : Assembly} {s t : Bytes} {m : WsMessage} {e : ClientError}
    (h : EndsIn a s e) (hread : readMessage a s = (.ok m, a', t)) : EndsIn a' t e := by
  cases h with
  | throws _ a'' u heq =>
    rw [hread] at heq
    cases heq
  | goesOn m' a'' u heq hrest =>
    rw [hread] at heq
    obtain ⟨-, heq⟩ := Prod.mk.inj heq
    obtain ⟨rfl, rfl⟩ := Prod.mk.inj heq
    exact hrest

/-- A message of the server that has arrived. -/
theorem readMessage_serverFrame {a : Assembly} {f : WsFrame} {s t : Bytes}
    (ha : a.assembling = false) (hmessage : f.isMessage = true)
    (hread : readFrame.exec s
      = (.ok { opcode := f.opcode, fin := true, payload := f.payloadData }, t)) :
    readMessage a s = (.ok { opcode := f.opcode, payload := f.payloadData },
      Assembly.between f.opcode, t) := by
  apply readMessage_of_readFrame ha ?_ rfl hread
  rw [WsFrame.isMessage, Bool.or_eq_true, beq_iff_eq, beq_iff_eq] at hmessage
  exact hmessage

/-- **The receive loop on the server's frames**, of which `s` has arrived: it prints the first of
the messages that it can read; all of them, if it does not end for want of more. -/
theorem goOn_frames {frames : List WsFrame} (hserver : ∀ f ∈ frames, ServerFrame f)
    (hlen : ∀ f ∈ frames, f.payloadData.length < 2 ^ 64) {s later : Bytes}
    (hs : s ++ later = (frames.map writeFrame).flatten) {l : ReceiveLoop}
    (ha : l.assembly.assembling = false) :
    ∃ read e, read <+: readable frames ∧
      (l.goOn s).printed = l.printed ++ read.flatMap printFrame ++ [lastLine e] ∧
      (∀ e', EndsIn l.assembly s e' → e' = e) ∧
      (e ≠ .eof ∨ later = [] → read = readable frames ∧ e = readingEnd frames) := by
  induction frames generalizing s l with
  | nil =>
    rw [List.map_nil, List.flatten_nil] at hs
    obtain ⟨rfl, rfl⟩ := List.append_eq_nil_iff.mp hs
    have hread : readMessage l.assembly [] = (.error .eof, l.assembly, []) :=
      readMessage_of_error l.assembly rfl
    refine ⟨[], .eof, List.nil_prefix, ?_, fun e he => he.eq_of_error hread, fun _ => ⟨rfl, rfl⟩⟩
    rw [goOn_of_error hread, handleException_what, List.flatMap_nil, List.append_nil]
  | cons f frames ih =>
    obtain ⟨hf, hserver⟩ := List.forall_mem_cons.mp hserver
    obtain ⟨hflen, hlen⟩ := List.forall_mem_cons.mp hlen
    rw [List.map_cons, List.flatten_cons] at hs
    have hframe := exec_readFrame_serverFrame hf hflen (frames.map writeFrame).flatten
    rw [← hs] at hframe
    rcases incremental_readFrame s later with heof | hsame
    · -- the frame has not arrived completely
      have hread := readMessage_of_error l.assembly (s := s) (Prod.ext heof rfl)
      refine ⟨[], .eof, List.nil_prefix, ?_, fun e he => he.eq_of_error hread, ?_⟩
      · rw [goOn_of_error hread, handleException_what, List.flatMap_nil, List.append_nil]
      · rintro (hne | rfl)
        · exact absurd rfl hne
        · rw [List.append_nil] at hframe
          rcases hframe with ⟨-, -, hok⟩ | ⟨e, -, he, herror⟩
          · rw [hok] at heof
            cases heof
          · rw [herror] at heof
            obtain rfl := Except.error.inj heof
            split_ifs at he
    · rw [hsame] at hframe
      rcases hframe with ⟨hmessage, htaken, hok⟩ | ⟨e, hstop, he, herror⟩
      · have hgood : (f.isMessage && f.taken) = true := by
          rw [hmessage, htaken]
          rfl
        obtain ⟨hout, hrest⟩ := Prod.mk.inj hok
        have hread := readMessage_serverFrame ha hmessage
          (Prod.ext hout rfl : readFrame.exec s = (_, (readFrame.exec s).2))
        obtain ⟨read, e, hfront, hprinted, hends, hall⟩ := ih hserver hlen hrest
          (l := { l with
            assembly := Assembly.between f.opcode
            printed := l.printed ++ printMessage { opcode := f.opcode, payload := f.payloadData } })
          rfl
        have hreadable : readable (f :: frames) = f :: readable frames :=
          List.takeWhile_cons_of_pos hgood
        have hend : readingEnd (f :: frames) = readingEnd frames := by
          have hdrop : (f :: frames).dropWhile (fun f => f.isMessage && f.taken)
              = frames.dropWhile fun f => f.isMessage && f.taken :=
            List.dropWhile_cons_of_pos hgood
          unfold readingEnd
          rw [hdrop]
        refine ⟨f :: read, e, ?_, ?_, fun e' he' => hends e' (he'.of_ok hread), ?_⟩
        · rw [hreadable]
          exact List.cons_prefix_cons.mpr ⟨rfl, hfront⟩
        · rw [goOn_of_ok hread, hprinted, List.flatMap_cons]
          simp only [List.append_assoc]
          rfl
        · intro hfull
          obtain ⟨hread, he⟩ := hall hfull
          rw [hreadable, hend, hread]
          exact ⟨rfl, he⟩
      · have hread := readMessage_of_error l.assembly (s := s) (Prod.ext herror rfl)
        have hreadable : readable (f :: frames) = [] :=
          List.takeWhile_cons_of_neg (by rw [hstop]; exact Bool.false_ne_true)
        have hend : readingEnd (f :: frames) = e := by
          have hdrop : (f :: frames).dropWhile (fun f => f.isMessage && f.taken) = f :: frames :=
            List.dropWhile_cons_of_neg (by rw [hstop]; exact Bool.false_ne_true)
          unfold readingEnd
          rw [hdrop, he]
        refine ⟨[], e, List.nil_prefix, ?_, fun e' he' => he'.eq_of_error hread,
          fun _ => ⟨hreadable.symm, hend.symm⟩⟩
        rw [goOn_of_error hread, handleException_what, List.flatMap_nil, List.append_nil]

end ReceiveLoop

end WebSocketsLib
