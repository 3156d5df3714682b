import WebSocketsLib.Lib.Reassembly
import WebSocketsLib.WebSocket.ParsedFrame
import Mathlib.Data.List.Induction
import Mathlib.Tactic.Common

/-!
# `handle_parsed_frame` as a reassembler

The open message of a `FrameBody` (`FrameBody.openMessage`) follows the abstract receiver of
`Lib/Reassembly.lean` through every branch, the error branches included (`frameSpec`).  The
messages delivered are those of the abstract receiver, with one exception: a final continuation
that continues nothing is delivered as a message of its own, since its branch does not return after
reporting the error (`StrayFinal`).

`soundReassembly_iff`: reassembly is sound exactly on the sequences without such a frame.
-/

namespace WebSocketsLib

open Reassembly

/-! ### The effects of a frame -/

section

variable {handlers : WsHandlers} {f : WsFrame} {Q : Effect → Prop}

theorem forall_appendAndDeliver {fb : FrameBody}
    (hreport : ∀ code reason, ∀ e ∈ reportError handlers code reason, Q e)
    (hmessage : ∀ msg, handlers.onMessage = true → Q (.onMessage msg)) :
    ∀ e ∈ (appendAndDeliver handlers f fb).2, Q e := by
  unfold appendAndDeliver
  cases fb.append f.payloadData with
  | none => exact hreport _ _
  | some fb =>
    dsimp only
    intro e he
    split_ifs at he with hfin hinstalled
    · rw [List.mem_singleton.mp he]
      exact hmessage _ hinstalled
    · cases he
    · cases he

/-- The answer to a Close frame with `fin` set is a graceful close. -/
theorem handleCloseFrame_eq (payload : Bytes) : ∃ code reason,
    handleCloseFrame payload = sendCloseWithReason code reason ++ [.close code reason] :=
  ⟨_, _, rfl⟩

/-- What holds of every error report and every message, and of the answer to a Ping or a Close frame
if the frame is one, holds of all effects of the frame. -/
theorem forall_handleParsedFrame {fb : FrameBody}
    (hreport : ∀ code reason, ∀ e ∈ reportError handlers code reason, Q e)
    (hpong : f.opcode = wsPing ∧ f.fin = true → Q (.doWrite (writeFrame (pongFrame f.payloadData))))
    (hclose : f.opcode = wsClose ∧ f.fin = true → ∀ e ∈ handleCloseFrame f.payloadData, Q e)
    (hmessage : ∀ msg, handlers.onMessage = true → Q (.onMessage msg)) :
    ∀ e ∈ (handleParsedFrame handlers f fb).2, Q e := by
  have hnil : ∀ e ∈ ([] : List Effect), Q e := fun _ he => nomatch he
  unfold handleParsedFrame
  split_ifs with hping hpingFin _ _ hop hfin
  · exact hreport _ _
  · exact List.forall_mem_singleton.mpr (hpong ⟨hping, by simpa using hpingFin⟩)
  · exact hreport _ _
  · exact hnil
  · exact hreport _ _
  · exact hclose ⟨hop, by simpa using hfin⟩
  · exact hreport _ _
  · exact forall_appendAndDeliver hreport hmessage
  · intro e he
    rcases List.mem_append.mp he with he | he
    · exact hreport _ _ e he
    · exact forall_appendAndDeliver hreport hmessage e he
  · exact forall_appendAndDeliver hreport hmessage
  · exact hnil

end

/-! ### The abstraction -/

/-- How the receiver classifies a frame. -/
def WsFrame.fragment (f : WsFrame) : Fragment UInt8 :=
  if f.opcode = wsText ∨ f.opcode = wsBinary then .start f.fin f.payloadData
  else if f.opcode = wsCont then .cont f.fin f.payloadData
  else .control

/-- The size limit of the read loop. -/
def fits (msg : Bytes) : Bool :=
  decide (msg.length ≤ maxMsgSize)

theorem fits_append (x y : Bytes) (h : fits (x ++ y) = true) : fits x = true := by
  simp only [fits, decide_eq_true_eq, List.length_append] at h ⊢
  omega

/-- The message being assembled. -/
def FrameBody.openMessage (fb : FrameBody) : Option Bytes :=
  if fb.assembling then some fb.msg else none

/-- The messages among the effects. -/
def delivered (effects : List Effect) : List Bytes :=
  effects.filterMap fun
    | .onMessage msg => some msg
    | _ => none

theorem mem_delivered {effects : List Effect} {m : Bytes} :
    m ∈ delivered effects ↔ Effect.onMessage m ∈ effects := by
  rw [delivered, List.mem_filterMap]
  constructor
  · rintro ⟨e, he, hm⟩
    cases e <;> simp at hm
    rwa [hm] at he
  · exact fun h => ⟨_, h, rfl⟩

theorem delivered_append (es es' : List Effect) :
    delivered (es ++ es') = delivered es ++ delivered es' := by
  rw [delivered, delivered, delivered, List.filterMap_append]

@[simp]
theorem delivered_reportError (handlers : WsHandlers) (code : UInt16) (reason : Bytes) :
    delivered (reportError handlers code reason) = [] := by
  unfold reportError
  split_ifs <;> rfl

/-- The call of `on_message`, when it is installed. -/
theorem delivered_onMessage (handlers : WsHandlers) (m : Bytes) :
    delivered (if handlers.onMessage then [.onMessage m] else [])
      = if handlers.onMessage then [m] else [] := by
  split_ifs <;> rfl

/-- The append of a `FrameBody` under the limit of the read loop. -/
theorem append_eq {fb : FrameBody} (h : fb.maxSize = maxMsgSize) (data : Bytes) :
    fb.append data
      = if fits (fb.msg ++ data) then some { fb with msg := fb.msg ++ data } else none := by
  have hexc : fb.wouldExceed data.length = !fits (fb.msg ++ data) := by
    have hmax : (fb.maxSize != 0) = true := by rw [h]; rfl
    rw [FrameBody.wouldExceed, hmax, h, Bool.true_and, fits, List.length_append, ← decide_not]
    exact decide_eq_decide.mpr Nat.not_le.symm
  rw [FrameBody.append, hexc]
  cases fits (fb.msg ++ data) <;> rfl

/-- The common end of the two data branches is `accept` of the abstract receiver. -/
theorem appendAndDeliver_spec (handlers : WsHandlers) (f : WsFrame) {fb : FrameBody}
    (h : fb.maxSize = maxMsgSize) :
    (appendAndDeliver handlers f fb).1.maxSize = maxMsgSize ∧
      delivered (appendAndDeliver handlers f fb).2
        = (if handlers.onMessage then (accept fits f.fin (fb.msg ++ f.payloadData)).2.toList
          else []) ∧
      (appendAndDeliver handlers f fb).1.openMessage
        = if fb.assembling then (accept fits f.fin (fb.msg ++ f.payloadData)).1 else none := by
  rw [appendAndDeliver, append_eq h, accept]
  cases fits (fb.msg ++ f.payloadData) with
  | false => simp [FrameBody.reset, FrameBody.openMessage, tooBig, h]
  | true =>
    cases f.fin with
    | false => simp [FrameBody.openMessage, h, delivered]
    | true => simp [FrameBody.reset, FrameBody.openMessage, h, delivered_onMessage]

/-- A final continuation that continues nothing, and that the buffer has room for: the frame that
is delivered although there is no message. -/
def StrayFinal (fb : FrameBody) (f : WsFrame) : Prop :=
  f.opcode = wsCont ∧ f.fin = true ∧ fb.assembling = false ∧
    fits (fb.msg ++ f.payloadData) = true

instance (fb : FrameBody) (f : WsFrame) : Decidable (StrayFinal fb f) := by
  unfold StrayFinal
  infer_instance

/-- What handling one frame does to the open message, and which messages it delivers. -/
structure FrameSpec (handlers : WsHandlers) (f : WsFrame) (fb : FrameBody) : Prop where
  maxSize : (handleParsedFrame handlers f fb).1.maxSize = maxMsgSize
  openMessage : (handleParsedFrame handlers f fb).1.openMessage
    = (step fits fb.openMessage f.fragment).1
  delivered : delivered (handleParsedFrame handlers f fb).2
    = if handlers.onMessage then
        (if StrayFinal fb f then [fb.msg ++ f.payloadData]
          else (step fits fb.openMessage f.fragment).2.toList)
      else []

theorem openMessage_of_assembling {fb : FrameBody} (h : fb.assembling = true) :
    fb.openMessage = some fb.msg := by
  rw [FrameBody.openMessage, if_pos h]

theorem openMessage_of_not_assembling {fb : FrameBody} (h : fb.assembling = false) :
    fb.openMessage = none := by
  rw [FrameBody.openMessage, h]
  rfl

/-- A control frame, or a frame of a reserved opcode, touches neither the buffer nor
`on_message`. -/
theorem frameSpec_control (handlers : WsHandlers) {f : WsFrame} {fb : FrameBody}
    (h : fb.maxSize = maxMsgSize) (hdata : ¬ (f.opcode = wsText ∨ f.opcode = wsBinary))
    (hcont : f.opcode ≠ wsCont) : FrameSpec handlers f fb := by
  have hstray : ¬ StrayFinal fb f := fun hs => hcont hs.1
  have hstep : step fits fb.openMessage f.fragment = (fb.openMessage, none) := by
    rw [WsFrame.fragment, if_neg hdata, if_neg hcont]
    cases fb.openMessage <;> rfl
  have hquiet : (handleParsedFrame handlers f fb).1 = fb ∧
      delivered (handleParsedFrame handlers f fb).2 = [] := by
    unfold handleParsedFrame
    split_ifs <;> exact ⟨rfl, by first | rfl | exact delivered_reportError ..⟩
  refine ⟨by rw [hquiet.1, h], by rw [hquiet.1, hstep], ?_⟩
  rw [hquiet.2, if_neg hstray, hstep]
  split_ifs <;> rfl

theorem frameSpec_data (handlers : WsHandlers) {f : WsFrame} {fb : FrameBody}
    (h : fb.maxSize = maxMsgSize) (hdata : f.opcode = wsText ∨ f.opcode = wsBinary) :
    FrameSpec handlers f fb := by
  have hother : f.opcode ≠ wsPing ∧ f.opcode ≠ wsPong ∧ f.opcode ≠ wsClose ∧ f.opcode ≠ wsCont := by
    rcases hdata with hop | hop <;> rw [hop] <;> decide
  obtain ⟨hping, hpong, hclose, hcont⟩ := hother
  have hstray : ¬ StrayFinal fb f := fun hs => hcont hs.1
  have hfrag : f.fragment = .start f.fin f.payloadData := if_pos hdata
  cases hasm : fb.assembling with
  | true =>
    -- the frame is refused and the open message goes on
    have heq : handleParsedFrame handlers f fb = (fb, newDataWhileAssembling handlers) := by
      simp [handleParsedFrame, hping, hpong, hclose, hdata, hasm]
    refine ⟨by rw [heq, h], ?_, ?_⟩
    · rw [heq, hfrag, openMessage_of_assembling hasm]
      rfl
    · rw [heq, if_neg hstray, hfrag, openMessage_of_assembling hasm, newDataWhileAssembling,
        delivered_reportError]
      split_ifs <;> rfl
  | false =>
    have heq : handleParsedFrame handlers f fb
        = appendAndDeliver handlers f (fb.start f.opcode f.payloadLength.toNat) := by
      simp [handleParsedFrame, hping, hpong, hclose, hdata, hasm]
    have hstart : (fb.start f.opcode f.payloadLength.toNat).maxSize = maxMsgSize := h
    obtain ⟨hmax, hdel, hmsg⟩ := appendAndDeliver_spec handlers f hstart
    refine ⟨by rw [heq, hmax], ?_, ?_⟩
    · rw [heq, hmsg, hfrag, openMessage_of_not_assembling hasm]
      rfl
    · rw [heq, hdel, if_neg hstray, hfrag, openMessage_of_not_assembling hasm]
      rfl

theorem frameSpec_cont (handlers : WsHandlers) {f : WsFrame} {fb : FrameBody}
    (h : fb.maxSize = maxMsgSize) (hcont : f.opcode = wsCont) : FrameSpec handlers f fb := by
  have hother : f.opcode ≠ wsPing ∧ f.opcode ≠ wsPong ∧ f.opcode ≠ wsClose ∧
      ¬ (f.opcode = wsText ∨ f.opcode = wsBinary) := by
    rw [hcont]
    decide
  obtain ⟨hping, hpong, hclose, hdata⟩ := hother
  have hfrag : f.fragment = .cont f.fin f.payloadData := by
    rw [WsFrame.fragment, if_neg hdata, if_pos hcont]
  obtain ⟨hmax, hdel, hmsg⟩ := appendAndDeliver_spec handlers f h
  have heq : handleParsedFrame handlers f fb = ((appendAndDeliver handlers f fb).1,
      (if !fb.assembling then continuationWithoutInitialFrame handlers else [])
        ++ (appendAndDeliver handlers f fb).2) := by
    rw [handleParsedFrame, if_neg hping, if_neg hpong, if_neg hclose, if_neg hdata, if_pos hcont]
  have horphan : delivered (if !fb.assembling then continuationWithoutInitialFrame handlers else [])
      = [] := by
    split_ifs
    · exact delivered_reportError ..
    · rfl
  have hsecond : delivered (handleParsedFrame handlers f fb).2
      = if handlers.onMessage then (accept fits f.fin (fb.msg ++ f.payloadData)).2.toList
        else [] := by
    rw [heq, delivered_append, horphan, List.nil_append, hdel]
  cases hasm : fb.assembling with
  | true =>
    have hstray : ¬ StrayFinal fb f := fun hs => by
      have := hs.2.2.1
      rw [hasm] at this
      cases this
    rw [if_pos hasm] at hmsg
    refine ⟨by rw [heq, hmax], ?_, ?_⟩
    · rw [heq, hmsg, hfrag, openMessage_of_assembling hasm]
      rfl
    · rw [hsecond, if_neg hstray, hfrag, openMessage_of_assembling hasm]
      rfl
  | false =>
    rw [if_neg (by rw [hasm]; decide)] at hmsg
    refine ⟨by rw [heq, hmax], ?_, ?_⟩
    · rw [heq, hmsg, hfrag, openMessage_of_not_assembling hasm]
      rfl
    · -- the abstract receiver delivers nothing; the code delivers a final payload that fits
      rw [hsecond, hfrag, openMessage_of_not_assembling hasm]
      cases hfits : fits (fb.msg ++ f.payloadData) <;> cases hfin : f.fin <;>
        simp [StrayFinal, hcont, hfin, hasm, hfits, accept, step]

/-- **One frame**: the open message makes the step of the abstract receiver, and the messages
delivered are its messages, except for a stray final continuation. -/
theorem frameSpec (handlers : WsHandlers) (f : WsFrame) {fb : FrameBody}
    (h : fb.maxSize = maxMsgSize) : FrameSpec handlers f fb := by
  by_cases hdata : f.opcode = wsText ∨ f.opcode = wsBinary
  · exact frameSpec_data handlers h hdata
  · by_cases hcont : f.opcode = wsCont
    · exact frameSpec_cont handlers h hcont
    · exact frameSpec_control handlers h hdata hcont

/-! ### Sequences of frames -/

theorem handleFrames_append (handlers : WsHandlers) (fb : FrameBody) (fs gs : List WsFrame) :
    handleFrames handlers fb (fs ++ gs)
      = ((handleFrames handlers (handleFrames handlers fb fs).1 gs).1,
        (handleFrames handlers fb fs).2
          ++ (handleFrames handlers (handleFrames handlers fb fs).1 gs).2) := by
  induction fs generalizing fb with
  | nil => rfl
  | cons f fs ih => simp only [List.cons_append, handleFrames, ih]

/-- The `FrameBody` of the read loop after the frames `seen`. -/
def bodyAfter (handlers : WsHandlers) (seen : List WsFrame) : FrameBody :=
  (handleFrames handlers (FrameBody.ofMaxSize maxMsgSize) seen).1

/-- The effects of the frame `f` that arrives after the frames `seen`. -/
def effectsAt (handlers : WsHandlers) (seen : List WsFrame) (f : WsFrame) : List Effect :=
  (handleParsedFrame handlers f (bodyAfter handlers seen)).2

theorem bodyAfter_concat (handlers : WsHandlers) (seen : List WsFrame) (f : WsFrame) :
    bodyAfter handlers (seen ++ [f])
      = (handleParsedFrame handlers f (bodyAfter handlers seen)).1 := by
  rw [bodyAfter, handleFrames_append]
  rfl

/-- The open message follows the abstract receiver over any frames. -/
theorem bodyAfter_spec (handlers : WsHandlers) (seen : List WsFrame) :
    (bodyAfter handlers seen).maxSize = maxMsgSize ∧
      (bodyAfter handlers seen).openMessage
        = (run fits none (seen.map WsFrame.fragment)).1 := by
  induction seen using List.reverseRecOn with
  | nil => exact ⟨rfl, rfl⟩
  | append_singleton seen f ih =>
    have hspec := frameSpec handlers f ih.1
    rw [bodyAfter_concat, List.map_append, List.map_singleton, run_concat, ← ih.2]
    exact ⟨hspec.maxSize, hspec.openMessage⟩

/-! ### Soundness -/

/-- Every message that the handling of `fs` delivers, from a fresh `FrameBody`, is complete and
ends at the frame that delivers it, and no continuation that continues nothing delivers one. -/
def SoundReassembly (handlers : WsHandlers) (fs : List WsFrame) : Prop :=
  ∀ seen f rest m, fs = seen ++ f :: rest → Effect.onMessage m ∈ effectsAt handlers seen f →
    EndsMessage ((seen ++ [f]).map WsFrame.fragment) m ∧
      ¬ (f.opcode = wsCont ∧ (run fits none (seen.map WsFrame.fragment)).1 = none)

/-- **Soundness of reassembly**: it holds on a sequence of frames exactly when no final
continuation arrives while no message is being assembled (unless the payloads left over from
earlier such frames and its own exceed the limit). -/
theorem soundReassembly_iff (handlers : WsHandlers) (fs : List WsFrame) :
    SoundReassembly handlers fs ↔ ∀ seen f rest, fs = seen ++ f :: rest →
      ¬ (handlers.onMessage = true ∧ StrayFinal (bodyAfter handlers seen) f) := by
  constructor
  · rintro hsound seen f rest hfs ⟨hmsg, hstray⟩
    obtain ⟨hmax, hopen⟩ := bodyAfter_spec handlers seen
    -- a stray final continuation is delivered with what earlier ones have left in the buffer
    have hmem : (bodyAfter handlers seen).msg ++ f.payloadData
        ∈ delivered (effectsAt handlers seen f) := by
      rw [effectsAt, (frameSpec handlers f hmax).delivered, if_pos hmsg, if_pos hstray]
      exact List.mem_singleton_self _
    refine (hsound seen f rest _ hfs (mem_delivered.mp hmem)).2 ⟨hstray.1, ?_⟩
    rw [← hopen, openMessage_of_not_assembling hstray.2.2.1]
  · intro hcond seen f rest m hfs hm
    obtain ⟨hmax, hopen⟩ := bodyAfter_spec handlers seen
    rw [← mem_delivered, effectsAt, (frameSpec handlers f hmax).delivered] at hm
    have hinstalled : handlers.onMessage = true := by
      by_contra hno
      rw [if_neg hno] at hm
      cases hm
    rw [if_pos hinstalled, if_neg fun hstray => hcond seen f rest hfs ⟨hinstalled, hstray⟩, hopen,
      Option.mem_toList] at hm
    refine ⟨?_, ?_⟩
    · rw [List.map_append, List.map_singleton]
      exact delivered_endsMessage fits _ _ hm
    · rintro ⟨hcont, hnone⟩
      have hfrag : f.fragment = .cont f.fin f.payloadData := by
        rw [WsFrame.fragment, if_neg (by rw [hcont]; decide), if_pos hcont]
      rw [hnone, hfrag] at hm
      cases hm

/-- One continuation frame with `fin` set, and nothing before it, is delivered as a message. -/
theorem not_soundReassembly_orphan :
    ¬ SoundReassembly { onMessage := true }
      [{ fin := true, opcode := wsCont, payloadLength := 1, payloadData := bytes "x" }] := by
  intro h
  refine (h [] _ [] (bytes "x") rfl ?_).2 ⟨rfl, rfl⟩
  decide

end WebSocketsLib
