import WebSocketsLib.WebSocket.Equiv.ReadStream
import WebSocketsLib.WebSocket.Equiv.WsFrame

/-!
# The control frames that the server sends

A control frame must be final and have at most 125 bytes of payload.  `build_close_payload` cuts its
reason for that, and `send_pong` echoes the payload of a Ping whatever its length.

`ReadStream.framesLegal_iff`: all frames of a run are legal exactly when no Ping with more than 125
bytes is answered in it.
-/

namespace WebSocketsLib

open BigEndian Runs

/-! ### Legal frames -/

/-- A buffer that is decoded to a control frame is final, and the length of its payload is the 7-bit
one and at most 125. -/
def LegalFrame (buf : Bytes) : Prop :=
  ∀ f t, decodeFrame buf = some (f, t) → 8 ≤ f.opcode →
    f.fin = true ∧ f.payloadData.length ≤ 125 ∧
      (buf.getD 1 0 &&& 0x7F).toNat = f.payloadData.length

/-- The opcode is in the first byte. -/
theorem opcode_of_decodeFrame {s t : Bytes} {f : WsFrame} (h : decodeFrame s = some (f, t)) :
    f.opcode = s.headD 0 &&& 0x0F := by
  obtain ⟨b0, b1, ext, key, payload, rfl, hext, hkey, hlen⟩ := exists_of_decodeFrame h
  rw [decodeFrame_append hext hkey hlen] at h
  obtain ⟨rfl, -⟩ := Prod.mk.inj (Option.some.inj h)
  rfl

/-- A frame with the opcode of a data frame, of any length. -/
theorem legalFrame_writeFrame_of_data {f : WsFrame} (hop : f.opcode < 8) :
    LegalFrame (writeFrame f) := by
  intro g t hdecode hcontrol
  have hlt : f.opcode.toNat < 8 := hop
  have hopcode : g.opcode = f.opcode := by
    rw [opcode_of_decodeFrame hdecode]
    exact (byte0_spec f (show f.opcode.toNat < 16 by omega)).2
  rw [hopcode] at hcontrol
  exact absurd hop (UInt8.not_lt.mpr hcontrol)

/-- A short length is the second byte, but for the mask bit. -/
theorem getD_one_writeFrame {f : WsFrame} (hlen : f.payloadData.length ≤ 125) :
    ((writeFrame f).getD 1 0 &&& 0x7F).toNat = f.payloadData.length := by
  have hnat : (UInt64.ofNat f.payloadData.length).toNat = f.payloadData.length := by
    rw [UInt64.toNat_ofNat', Nat.mod_eq_of_lt (by omega)]
  have hlow : (UInt64.ofNat f.payloadData.length).toUInt8.toNat = f.payloadData.length := by
    rw [UInt64.toNat_toUInt8, hnat]
    omega
  have hbyte : (writeFrame f).getD 1 0
      = f.mask.toUInt8 <<< 7 ||| (UInt64.ofNat f.payloadData.length).toUInt8 := by
    rw [writeFrame, lengthBytes_eq, hnat, if_pos hlen]
    rfl
  rw [hbyte, (byte1_spec f.mask _ ?_).2, hlow]
  show (UInt64.ofNat f.payloadData.length).toUInt8.toNat < 128
  omega

/-- **A frame that is written** is legal if it is final and short, or not a control frame. -/
theorem legalFrame_writeFrame_iff {f : WsFrame} (hop : f.opcode < 16)
    (hlen : f.payloadData.length < 2 ^ 64) : LegalFrame (writeFrame f) ↔
      (8 ≤ f.opcode → f.fin = true ∧ f.payloadData.length ≤ 125) := by
  have hdecode := decodeFrame_writeFrame f hop hlen []
  rw [List.append_nil] at hdecode
  constructor
  · intro hlegal hcontrol
    obtain ⟨hfin, hshort, -⟩ := hlegal _ _ hdecode hcontrol
    exact ⟨hfin, hshort⟩
  · intro hlegal g t hdecode' hcontrol
    obtain ⟨rfl, -⟩ := Prod.mk.inj (Option.some.inj (hdecode.symm.trans hdecode'))
    obtain ⟨hfin, hshort⟩ := hlegal hcontrol
    exact ⟨hfin, hshort, getD_one_writeFrame hshort⟩

/-! ### The frames of the server -/

theorem buildClosePayload_eq (code : UInt16) (reason : Bytes) : buildClosePayload code reason
    = (code >>> 8 &&& 0xFF).toUInt8 :: (code &&& 0xFF).toUInt8
      :: reason.take (min 123 reason.length) := by
  unfold buildClosePayload
  dsimp only
  split_ifs with hnil
  · rw [hnil]
    rfl
  · rfl

theorem length_buildClosePayload_le (code : UInt16) (reason : Bytes) :
    (buildClosePayload code reason).length ≤ 125 := by
  rw [buildClosePayload_eq, List.length_cons, List.length_cons, List.length_take]
  omega

/-- The reason is cut. -/
theorem legalFrame_closeFrame (code : UInt16) (reason : Bytes) :
    LegalFrame (writeFrame (closeFrame code reason)) := by
  have hop : wsClose < 16 := by decide
  have hshort : (closeFrame code reason).payloadData.length ≤ 125 :=
    length_buildClosePayload_le code reason
  rw [legalFrame_writeFrame_iff (f := closeFrame code reason) hop (by omega)]
  exact fun _ => ⟨rfl, hshort⟩

/-- The payload of a Ping is not. -/
theorem legalFrame_pongFrame_iff {payload : Bytes} (hlen : payload.length < 2 ^ 64) :
    LegalFrame (writeFrame (pongFrame payload)) ↔ payload.length ≤ 125 := by
  have hop : wsPong < 16 := by decide
  have hcontrol : 8 ≤ wsPong := by decide
  rw [legalFrame_writeFrame_iff (f := pongFrame payload) hop hlen]
  exact ⟨fun h => (h hcontrol).2, fun h _ => ⟨rfl, h⟩⟩

/-- A frame that is passed to `do_write` is legal. -/
def Effect.Legal : Effect → Prop
  | .doWrite frame => LegalFrame frame
  | _ => True

theorem legal_sendCloseWithReason (code : UInt16) (reason : Bytes) :
    ∀ e ∈ sendCloseWithReason code reason, e.Legal :=
  List.forall_mem_singleton.mpr (legalFrame_closeFrame code reason)

theorem legal_gracefulClose (code : UInt16) (reason : Bytes) :
    ∀ e ∈ sendCloseWithReason code reason ++ [.close code reason], e.Legal :=
  List.forall_mem_append.mpr
    ⟨legal_sendCloseWithReason code reason, List.forall_mem_singleton.mpr trivial⟩

theorem legal_reportError (handlers : WsHandlers) (code : UInt16) (reason : Bytes) :
    ∀ e ∈ reportError handlers code reason, e.Legal := by
  unfold reportError
  refine List.forall_mem_append.mpr ⟨legal_sendCloseWithReason code reason, ?_⟩
  split_ifs
  · exact List.forall_mem_singleton.mpr trivial
  · exact fun _ he => absurd he List.not_mem_nil

/-- A Ping that is answered, with a payload that is too long for a control frame. -/
def LongPing (f : WsFrame) : Prop :=
  f.opcode = wsPing ∧ f.fin = true ∧ 125 < f.payloadData.length

instance (f : WsFrame) : Decidable (LongPing f) := inferInstanceAs (Decidable (_ ∧ _))

/-- **The answers to a frame** are legal, if it is not a Ping that is too long. -/
theorem legal_handleParsedFrame (handlers : WsHandlers) {f : WsFrame} (fb : FrameBody)
    (hlen : f.payloadData.length < 2 ^ 64) (h : ¬LongPing f) :
    ∀ e ∈ (handleParsedFrame handlers f fb).2, e.Legal := by
  apply forall_handleParsedFrame
  · exact legal_reportError handlers
  · rintro ⟨hop, hfin⟩
    apply (legalFrame_pongFrame_iff hlen).mpr
    by_contra hlong
    exact h ⟨hop, hfin, by omega⟩
  · rintro -
    obtain ⟨code, reason, heq⟩ := handleCloseFrame_eq f.payloadData
    rw [heq]
    exact legal_gracefulClose code reason
  · exact fun _ _ => trivial

/-! ### The connection -/

namespace Conn

variable {app : App} {c c' : Conn} {G : Prop}

/-- Whether all frames are legal so far is `G`, and the frames that the writers still pass to
`do_write` are. -/
structure Legality (G : Prop) (c : Conn) : Prop where
  queued : (∀ buf ∈ c.queued, LegalFrame buf) ↔ G
  writers : ∀ w ∈ c.writers, ∀ e ∈ w.rest, e.Legal

theorem Legality.of_sameQueue (h : c.Legality G) (hsame : SameQueue c c') : c'.Legality G where
  queued := by
    rw [hsame.queued]
    exact h.queued
  writers := by
    rw [hsame.writers]
    exact h.writers

/-- One frame more. -/
theorem Legality.queued_push (h : c.Legality G) {frame : Bytes} (hframe : LegalFrame frame) :
    (∀ buf ∈ (c.push frame).queued, LegalFrame buf) ↔ G := by
  rw [← h.queued]
  show (∀ buf ∈ c.queued ++ [frame], LegalFrame buf) ↔ _
  rw [List.forall_mem_append, List.forall_mem_singleton, and_iff_left hframe]

/-- **A coroutine** passes the frames of its effects to `do_write`. -/
theorem Legality.runEffects (h : c.Legality G) (owner : Owner) {effects : List Effect}
    (heffects : ∀ e ∈ effects, e.Legal) (q : Option ℕ) :
    (Conn.runEffects app owner effects q c).Legality G := by
  induction effects generalizing q c with
  | nil => exact h.of_sameQueue (sameQueue_finish owner c)
  | cons e effects ih =>
    obtain ⟨he, hrest⟩ := List.forall_mem_cons.mp heffects
    cases e with
    | doWrite frame =>
      unfold Conn.runEffects
      dsimp only
      split_ifs
      · exact ih ⟨h.queued_push he, h.writers⟩ hrest _
      · refine ⟨h.queued_push he, List.forall_mem_append.mpr ⟨h.writers, ?_⟩⟩
        exact List.forall_mem_singleton.mpr hrest
    | onMessage msg => exact ih (h.of_sameQueue (sameQueue_callback app _ c)) hrest _
    | onClose code reason => exact ih (h.of_sameQueue (sameQueue_callback app _ c)) hrest _
    | close code reason => exact ih (h.of_sameQueue (sameQueue_close app q code reason c)) hrest _

theorem legal_taskEffects (c : Conn) (t : Task) : ∀ e ∈ c.taskEffects t, e.Legal := by
  apply forall_taskEffects
  · exact legal_gracefulClose
  · intro opcode payload hdata
    have hop : opcode < 8 := by
      rcases hdata with rfl | rfl
      · decide
      · decide
    exact legalFrame_writeFrame_of_data (f := dataFrame opcode payload) hop

/-- **Every step** passes legal frames to `do_write`, if it does not answer a Ping that is too
long. -/
theorem Legality.step {e : Event} (h : c.Legality G)
    (hgot : ∀ f, c.readLoop = .got f → f.payloadData.length < 2 ^ 64)
    (hshort : ∀ f, e = .resume → c.readLoop = .got f → ¬LongPing f)
    (hstep : Conn.step app c e = some c') : c'.Legality G := by
  have herase : ∀ k, ∀ w ∈ c.writers.eraseIdx k, ∀ e ∈ w.rest, e.Legal :=
    fun k w hw => h.writers w (List.mem_of_mem_eraseIdx hw)
  cases stepped_of_step hstep with
  | start hnot => exact h.of_sameQueue (sameQueue_start app c)
  | call k => exact h.of_sameQueue (sameQueue_call app k c)
  | recv f hreading hopen => exact ⟨h.queued, h.writers⟩
  | readError hreading => exact ⟨h.queued, h.writers⟩
  | resume f hf =>
    have hc : Legality G { c with fb := (handleParsedFrame app.handlers f c.fb).1 } :=
      ⟨h.queued, h.writers⟩
    exact hc.runEffects .readLoop
      (legal_handleParsedFrame app.handlers c.fb (hgot f hf) (hshort f rfl hf)) none
  | runTask t tasks htasks =>
    have hc : Legality G { c with tasks } := ⟨h.queued, h.writers⟩
    exact hc.runEffects .task (legal_taskEffects c t) none
  | writeLast k w hw hq =>
    refine Legality.runEffects ?_ w.owner (h.writers w (List.mem_of_getElem? hw)) _
    exact ⟨h.queued, herase k⟩
  | writeNext k w buf queue hw hq =>
    refine ⟨h.queued, List.forall_mem_append.mpr ⟨herase k, ?_⟩⟩
    exact List.forall_mem_singleton.mpr (h.writers w (List.mem_of_getElem? hw))
  | writeFail k w hw => exact ⟨h.queued, herase k⟩

/-- **The answer to a Ping that is too long** is not legal. -/
theorem Legality.longPing (h : c.Legality G) {f : WsFrame} (hgot : c.readLoop = .got f)
    (hlen : f.payloadData.length < 2 ^ 64) (hping : LongPing f)
    (hstep : Conn.step app c .resume = some c') : c'.Legality False := by
  obtain ⟨hop, hfin, hlong⟩ := hping
  have hbad : ¬LegalFrame (writeFrame (pongFrame f.payloadData)) := by
    rw [legalFrame_pongFrame_iff hlen]
    omega
  have hqueued : ∀ d : Conn, ¬∀ buf ∈ (d.push (writeFrame (pongFrame f.payloadData))).queued,
      LegalFrame buf :=
    fun d hall => hbad (hall _ (List.mem_append_right _ (List.mem_singleton_self _)))
  have heffects : handleParsedFrame app.handlers f c.fb
      = (c.fb, [.doWrite (writeFrame (pongFrame f.payloadData))]) := by
    unfold handleParsedFrame
    rw [hop, hfin]
    rfl
  cases stepped_of_step hstep with
  | resume f' hgot' =>
    obtain rfl : f = f' := ReadLoop.got.inj (hgot.symm.trans hgot')
    rw [heffects]
    unfold Conn.runEffects
    dsimp only
    split_ifs
    · refine ⟨iff_of_false (hqueued _) not_false, ?_⟩
      exact h.writers
    · refine ⟨iff_of_false (hqueued _) not_false, List.forall_mem_append.mpr ⟨h.writers, ?_⟩⟩
      exact List.forall_mem_singleton.mpr fun _ he => absurd he List.not_mem_nil

end Conn

/-! ### The stream -/

namespace ReadStream

variable {app : App} {r r' : ReadStream}

/-- No Ping that is too long is answered. -/
def PingsShort (r : ReadStream) (e : Event) : Prop :=
  match e with
  | .conn .resume =>
    match r.conn.readLoop with
    | .got f => ¬LongPing f
    | _ => True
  | _ => True

instance (r : ReadStream) (e : Event) : Decidable (r.PingsShort e) := by
  unfold PingsShort
  split
  · split
    · infer_instance
    · infer_instance
  · infer_instance

/-- All frames that have been passed to `do_write` are legal. -/
def FramesLegal (r : ReadStream) : Prop :=
  ∀ buf ∈ r.conn.queued, LegalFrame buf

/-- The writers pass on legal frames, and the frame that has been read is of a possible size. -/
structure LegalInv (r : ReadStream) : Prop where
  legality : r.conn.Legality r.FramesLegal
  got : ∀ f, r.conn.readLoop = .got f → f.payloadData.length < 2 ^ 64

/-- A step of the connection. -/
theorem LegalInv.step_conn (h : r.LegalInv) {e : Conn.Event}
    (hr' : r.conn.step app e = some r'.conn)
    (hrecv : ∀ f, e = .recv f → f.payloadData.length < 2 ^ 64) (ok : Prop)
    (hok : ok ↔ ∀ f, e = .resume → r.conn.readLoop = .got f → ¬LongPing f) :
    r'.LegalInv ∧ (r'.FramesLegal ↔ r.FramesLegal ∧ ok) := by
  have hgot := Conn.got_step h.got hrecv hr'
  by_cases hshort : ok
  · have hlegal := h.legality.step h.got (hok.mp hshort) hr'
    refine ⟨⟨⟨Iff.rfl, hlegal.writers⟩, hgot⟩, ?_⟩
    rw [and_iff_left hshort]
    exact hlegal.queued
  · rw [hok] at hshort
    simp only [not_forall, not_not] at hshort
    obtain ⟨f, rfl, hf, hping⟩ := hshort
    have hlegal := h.legality.longPing hf (h.got f hf) hping hr'
    refine ⟨⟨⟨Iff.rfl, hlegal.writers⟩, hgot⟩, iff_of_false hlegal.queued.mp ?_⟩
    rintro ⟨-, hok'⟩
    exact hok.mp hok' f rfl hf hping

theorem pingsShort_conn_iff (e : Conn.Event) : r.PingsShort (.conn e) ↔
    ∀ f, e = .resume → r.conn.readLoop = .got f → ¬LongPing f := by
  unfold PingsShort
  cases e with
  | resume =>
    cases hread : r.conn.readLoop with
    | got f => simp
    | _ => simp
  | _ => simp

/-- **Every step** adds legal frames exactly when it answers no Ping that is too long. -/
theorem LegalInv.step {e : Event} (h : r.LegalInv) (hstep : r.step app e = some r') :
    r'.LegalInv ∧ (r'.FramesLegal ↔ r.FramesLegal ∧ r.PingsShort e) := by
  cases e with
  | header =>
    unfold ReadStream.step at hstep
    dsimp only at hstep
    split_ifs at hstep
    obtain ⟨len, -, rfl⟩ := Option.map_eq_some_iff.mp hstep
    exact ⟨⟨h.legality, h.got⟩, (and_iff_left trivial).symm⟩
  | payload =>
    unfold ReadStream.step at hstep
    dsimp only at hstep
    split_ifs at hstep
    obtain ⟨⟨f, unread⟩, hdecode, hstep⟩ := Option.bind_eq_some_iff.mp hstep
    obtain ⟨conn, hconn, hstep⟩ := Option.bind_eq_some_iff.mp hstep
    obtain rfl := Option.some.inj hstep
    have hlen : f.payloadData.length < 2 ^ 64 := by
      rw [← payloadLength_of_decodeFrame hdecode]
      exact f.payloadLength.toNat_lt
    apply h.step_conn hconn
    · rintro f' ⟨rfl⟩
      exact hlen
    · exact iff_of_true trivial fun _ he => nomatch he
  | conn e =>
    obtain ⟨conn, hne, hconn, rfl⟩ := step_conn_eq_some hstep
    exact h.step_conn hconn (fun f he => absurd he (hne f)) _ (pingsShort_conn_iff e)

/-- The `WebSocket` as it is constructed. -/
theorem legalInv_empty (s : Bytes) :
    LegalInv { unread := s } ∧ FramesLegal { unread := s } := by
  refine ⟨⟨⟨Iff.rfl, fun w hw => ?_⟩, fun f hgot => ?_⟩, fun buf hbuf => ?_⟩
  · cases hw
  · cases hgot
  · cases hbuf

/-- **All frames that the server sends are legal**, in a run on any stream, exactly when no Ping
with more than 125 bytes is answered in it. -/
theorem framesLegal_iff (app : App) (s : Bytes) (es : List Event)
    (hrun : run (step app) { unread := s } es = some r) :
    r.FramesLegal ↔ Guarded (step app) PingsShort { unread := s } es := by
  obtain ⟨hinv, hlegal⟩ := legalInv_empty s
  exact run_iff_guarded LegalInv.step hinv hlegal hrun

/-- A Ping of one byte. -/
theorem framesLegal_iff_shortPing :
    ∃ r, run (step { handlers := {} }) { unread := [0x89, 0x01, 0x68] }
        [.conn .start, .header, .payload, .conn .resume] = some r ∧ r.FramesLegal :=
  ⟨_, rfl, (framesLegal_iff { handlers := {} } [0x89, 0x01, 0x68]
    [.conn .start, .header, .payload, .conn .resume] rfl).mpr (by decide)⟩

/-- A Ping of 126 bytes. -/
def longPing : Bytes :=
  0x89 :: 0x7E :: 0x00 :: 0x7E :: List.replicate 126 0x68

set_option maxRecDepth 4000 in
/-- A long Ping is answered with a Pong that is too long for a control frame. -/
theorem not_framesLegal_longPing :
    ¬∀ (app : App) (s : Bytes) (es : List Event) (r : ReadStream),
      run (step app) { unread := s } es = some r → r.FramesLegal := by
  intro h
  have hlegal := h { handlers := {} } longPing [.conn .start, .header, .payload, .conn .resume] _
    rfl
  have hpong : LegalFrame (writeFrame (pongFrame (List.replicate 126 0x68))) :=
    hlegal _ (List.mem_singleton_self _)
  rw [legalFrame_pongFrame_iff (by decide)] at hpong
  exact absurd hpong (by decide)

end ReadStream

end WebSocketsLib
