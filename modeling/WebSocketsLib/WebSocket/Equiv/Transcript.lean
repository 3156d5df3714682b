import WebSocketsLib.WebSocket.Equiv.ParsedFrame

/-!
# Completeness of reassembly

A `Transcript` is what a conforming peer sends: complete messages, with Ping and Pong frames
anywhere.  `handleFrames_complete` says what `handle_parsed_frame` does on one: every message
within the limit is delivered at its final frame, every Ping is answered, nothing else happens;
and the first message over the limit is refused at the frame at which its running total exceeds
it.

The induction is over the prefixes of the transcript.  A `FittingPrefix` is one in which everything
that has arrived fits: complete messages and the beginning of another.  Taking off its last frame
(`FittingPrefix.unconcat`) leaves a fitting prefix, and tells what that frame did
(`effectsAt_message`, `effectsAt_control`).
-/

namespace WebSocketsLib

open Reassembly

/-! ### Transcripts -/

/-- Ping and Pong take no part in reassembly. -/
def WsFrame.isControl (f : WsFrame) : Bool :=
  f.fragment.isControl

/-- The payload of a message cut into frames. -/
def messagePayload (ms : List WsFrame) : Bytes :=
  (ms.map WsFrame.payloadData).flatten

/-- The frames of one complete message: a TEXT or BINARY frame, then CONT frames, the last frame
and only it with `fin` set. -/
def IsMessageFrames (ms : List WsFrame) : Prop :=
  IsMessage (ms.map WsFrame.fragment)

/-- A Ping or a Pong with `fin` set. -/
def WsFrame.IsPingPong (f : WsFrame) : Prop :=
  f.fin = true ∧ (f.opcode = wsPing ∨ f.opcode = wsPong)

instance (f : WsFrame) : Decidable f.IsPingPong := by
  unfold WsFrame.IsPingPong
  infer_instance

/-- `fs` consists of the messages `msgs` in order, with Ping and Pong frames anywhere. -/
structure Transcript (fs : List WsFrame) (msgs : List (List WsFrame)) : Prop where
  data : (fs.filter fun f => !f.isControl) = msgs.flatten
  control : ∀ f ∈ fs, f.isControl = true → f.IsPingPong
  messages : ∀ ms ∈ msgs, IsMessageFrames ms

theorem filter_map_fragment (fs : List WsFrame) :
    (fs.map WsFrame.fragment).filter (fun x => !x.isControl)
      = (fs.filter fun f => !f.isControl).map WsFrame.fragment := by
  rw [List.filter_map]
  rfl

/-- The fragment of a frame that is not a control frame has the frame's payload. -/
theorem payload_fragment {f : WsFrame} (h : f.isControl = false) :
    f.fragment.payload = f.payloadData := by
  unfold WsFrame.isControl at h
  unfold WsFrame.fragment at h ⊢
  split_ifs at h ⊢ <;> first | rfl | cases h

theorem joined_map_fragment {ms : List WsFrame} (h : ∀ f ∈ ms, f.isControl = false) :
    joined (ms.map WsFrame.fragment) = messagePayload ms := by
  rw [joined, messagePayload, List.map_map]
  congr 1
  exact List.map_congr_left fun f hf => payload_fragment (h f hf)

/-- No control frame is part of a message. -/
theorem IsMessageFrames.not_control {ms : List WsFrame} (h : IsMessageFrames ms) :
    ∀ f ∈ ms, f.isControl = false := by
  have htail : ∀ {l : List (Fragment UInt8)}, IsTail l → ∀ x ∈ l, x.isControl = false := by
    intro l h
    induction h with
    | last p => simp [Fragment.isControl]
    | more p h ih => simpa [Fragment.isControl] using ih
  have hall : ∀ {l : List (Fragment UInt8)}, IsMessage l → ∀ x ∈ l, x.isControl = false := by
    intro l h
    cases h with
    | single p => simp [Fragment.isControl]
    | fragmented p h => simpa [Fragment.isControl] using htail h
  exact fun f hf => hall h f.fragment (List.mem_map_of_mem hf)

/-! ### Prefixes that fit -/

/-- What has arrived of a transcript: the complete messages `good` and the beginning `before` of
another one (`before = []` between messages), all within the limit. -/
structure FittingPrefix (seen : List WsFrame) (good : List (List WsFrame))
    (before : List WsFrame) : Prop where
  data : (seen.filter fun f => !f.isControl) = good.flatten ++ before
  control : ∀ f ∈ seen, f.isControl = true → f.IsPingPong
  messages : ∀ ms ∈ good, IsMessageFrames ms ∧ fits (messagePayload ms) = true
  begins : before = [] ∨ ∃ f after, IsMessageFrames (before ++ f :: after)
  beforeFits : fits (messagePayload before) = true

theorem messagePayload_append (xs ys : List WsFrame) :
    messagePayload (xs ++ ys) = messagePayload xs ++ messagePayload ys := by
  rw [messagePayload, List.map_append, List.flatten_append]
  rfl

theorem messagePayload_singleton (f : WsFrame) : messagePayload [f] = f.payloadData := by
  simp [messagePayload]

/-- **The last frame of a fitting prefix** is a Ping or Pong, or the next frame of a message; what
precedes it is a fitting prefix. -/
theorem FittingPrefix.unconcat {seen : List WsFrame} {f : WsFrame} {good : List (List WsFrame)}
    {before : List WsFrame} (h : FittingPrefix (seen ++ [f]) good before) :
    (f.isControl = true ∧ FittingPrefix seen good before) ∨
      ∃ good' before' after, f.isControl = false ∧ FittingPrefix seen good' before' ∧
        IsMessageFrames (before' ++ f :: after) ∧
        fits (messagePayload (before' ++ [f])) = true := by
  have hcontrol : ∀ g ∈ seen, g.isControl = true → g.IsPingPong :=
    fun g hg => h.control g (List.mem_append_left _ hg)
  have hdata := h.data
  rw [List.filter_append] at hdata
  cases hf : f.isControl with
  | true =>
    refine Or.inl ⟨rfl, ?_, hcontrol, h.messages, h.begins, h.beforeFits⟩
    rwa [List.filter_cons_of_neg (by simp [hf]), List.filter_nil, List.append_nil] at hdata
  | false =>
    refine Or.inr ?_
    rw [List.filter_cons_of_pos (by simp [hf]), List.filter_nil] at hdata
    rcases List.eq_nil_or_concat' before with rfl | ⟨before', g, rfl⟩
    · -- between messages: `f` ended the last complete one
      rcases List.eq_nil_or_concat' good with rfl | ⟨good', ms, rfl⟩
      · simp at hdata
      · obtain ⟨hms, hfits⟩ := h.messages ms (by simp)
        rcases List.eq_nil_or_concat' ms with rfl | ⟨before', g, rfl⟩
        · cases hms
        · have hsplit : seen.filter (fun x => !x.isControl) = good'.flatten ++ before' ∧ f = g := by
            rw [List.append_nil, List.flatten_append, List.flatten_singleton,
              ← List.append_assoc] at hdata
            simpa using List.append_inj' hdata rfl
          obtain ⟨hseen, rfl⟩ := hsplit
          refine ⟨good', before', [], rfl, ⟨hseen, hcontrol, ?_, Or.inr ⟨f, [], hms⟩, ?_⟩, hms,
            hfits⟩
          · exact fun x hx => h.messages x (List.mem_append_left _ hx)
          · rw [messagePayload_append] at hfits
            exact fits_append _ _ hfits
    · have hsplit : seen.filter (fun x => !x.isControl) = good.flatten ++ before' ∧ f = g := by
        rw [← List.append_assoc] at hdata
        simpa using List.append_inj' hdata rfl
      obtain ⟨hseen, rfl⟩ := hsplit
      have hfits := h.beforeFits
      obtain ⟨g, after, hms⟩ : ∃ g after, IsMessageFrames ((before' ++ [f]) ++ g :: after) := by
        rcases h.begins with hnil | hbegins
        · simp at hnil
        · exact hbegins
      rw [List.append_assoc, List.singleton_append] at hms
      refine ⟨good, before', g :: after, rfl,
        ⟨hseen, hcontrol, h.messages, Or.inr ⟨f, g :: after, hms⟩, ?_⟩, hms, hfits⟩
      rw [messagePayload_append] at hfits
      exact fits_append _ _ hfits

/-- The abstract receiver on a fitting prefix. -/
theorem FittingPrefix.run_eq {seen : List WsFrame} {good : List (List WsFrame)}
    {before : List WsFrame} (h : FittingPrefix seen good before) :
    run fits none (seen.map WsFrame.fragment)
      = (openOf (before.map WsFrame.fragment), good.map messagePayload) := by
  have hgood : ∀ ms ∈ good.map (List.map WsFrame.fragment),
      IsMessage ms ∧ fits (joined ms) = true := by
    intro ms hms
    obtain ⟨fs, hfs, rfl⟩ := List.mem_map.mp hms
    obtain ⟨h1, h2⟩ := h.messages fs hfs
    exact ⟨h1, by rwa [joined_map_fragment h1.not_control]⟩
  have hjoined : (good.map (List.map WsFrame.fragment)).map joined = good.map messagePayload := by
    rw [List.map_map]
    exact List.map_congr_left fun ms hms => joined_map_fragment (h.messages ms hms).1.not_control
  have hdata : (seen.map WsFrame.fragment).filter (fun x => !x.isControl)
      = (good.map (List.map WsFrame.fragment)).flatten ++ before.map WsFrame.fragment := by
    rw [filter_map_fragment, h.data, List.map_append, List.map_flatten]
  rcases h.begins with rfl | ⟨f, after, hms⟩
  · rw [List.map_nil, List.append_nil] at hdata
    rw [run_transcript fits fits_append hdata (fun ms hms => (hgood ms hms).1)
      fun ms hms => (hgood ms hms).2, hjoined]
    rfl
  · have hnc : ∀ g ∈ before, g.isControl = false :=
      fun g hg => hms.not_control g (List.mem_append_left _ hg)
    rw [IsMessageFrames, List.map_append, List.map_cons] at hms
    rw [run_inside_message fits fits_append hdata (fun ms hms => (hgood ms hms).1)
      (fun ms hms => (hgood ms hms).2) hms (by rw [joined_map_fragment hnc]; exact h.beforeFits),
      hjoined]

/-! ### What one frame of a transcript does -/

theorem effectsAt_control (handlers : WsHandlers) (seen : List WsFrame) {f : WsFrame}
    (h : f.IsPingPong) :
    effectsAt handlers seen f
      = if f.opcode = wsPing then handlePingFrame f.payloadData else [] := by
  obtain ⟨hfin, hop | hop⟩ := h <;> simp [effectsAt, handleParsedFrame, hop, hfin, wsPing, wsPong]

theorem effects_appendAndDeliver (handlers : WsHandlers) (f : WsFrame) {fb : FrameBody}
    (h : fb.maxSize = maxMsgSize) :
    (appendAndDeliver handlers f fb).2
      = if fits (fb.msg ++ f.payloadData) then
          (if f.fin = true ∧ handlers.onMessage = true
            then [.onMessage (fb.msg ++ f.payloadData)] else [])
        else tooBig handlers := by
  rw [appendAndDeliver, append_eq h]
  cases fits (fb.msg ++ f.payloadData) <;> cases f.fin <;> simp

/-- A message starts with a TEXT or BINARY frame. -/
theorem IsMessageFrames.opcode_first {f : WsFrame} {after : List WsFrame}
    (h : IsMessageFrames (f :: after)) : f.opcode = wsText ∨ f.opcode = wsBinary := by
  by_contra hno
  rw [IsMessageFrames, List.map_cons, WsFrame.fragment, if_neg hno] at h
  split_ifs at h
  · cases h
  · cases h

/-- The other frames of a message are CONT frames. -/
theorem IsMessageFrames.opcode_next {b f : WsFrame} {before after : List WsFrame}
    (h : IsMessageFrames (b :: before ++ f :: after)) : f.opcode = wsCont := by
  rw [IsMessageFrames, List.map_append, List.map_cons] at h
  have htail := h.isTail
  by_contra hno
  rw [WsFrame.fragment, if_neg hno] at htail
  split_ifs at htail
  · cases htail
  · cases htail

/-- A frame of a message is appended to a buffer that holds the message so far. -/
theorem handleParsedFrame_message (handlers : WsHandlers) {seen : List WsFrame}
    {good : List (List WsFrame)} {before after : List WsFrame} {f : WsFrame}
    (h : FittingPrefix seen good before) (hms : IsMessageFrames (before ++ f :: after)) :
    ∃ fb, handleParsedFrame handlers f (bodyAfter handlers seen) = appendAndDeliver handlers f fb ∧
      fb.assembling = true ∧ fb.maxSize = maxMsgSize ∧ fb.msg = messagePayload before := by
  obtain ⟨hmax, hopen⟩ := bodyAfter_spec handlers seen
  rw [h.run_eq] at hopen
  cases before with
  | nil =>
    -- the first frame of the message: nothing is being assembled
    have hdata := hms.opcode_first
    have hother : f.opcode ≠ wsPing ∧ f.opcode ≠ wsPong ∧ f.opcode ≠ wsClose := by
      rcases hdata with hop | hop <;> rw [hop] <;> decide
    have hasm : (bodyAfter handlers seen).assembling = false := by
      by_contra hno
      rw [openMessage_of_assembling (by simpa using hno)] at hopen
      cases hopen
    refine ⟨(bodyAfter handlers seen).start f.opcode f.payloadLength.toNat, ?_, rfl, hmax, rfl⟩
    rw [handleParsedFrame, if_neg hother.1, if_neg hother.2.1, if_neg hother.2.2, if_pos hdata,
      if_neg (by rw [hasm]; decide)]
  | cons b before =>
    -- a continuation: the message is being assembled
    have hcont := hms.opcode_next
    have hother : f.opcode ≠ wsPing ∧ f.opcode ≠ wsPong ∧ f.opcode ≠ wsClose ∧
        ¬ (f.opcode = wsText ∨ f.opcode = wsBinary) := by
      rw [hcont]
      decide
    have hasm : (bodyAfter handlers seen).assembling = true := by
      by_contra hno
      rw [openMessage_of_not_assembling (by simpa using hno)] at hopen
      cases hopen
    refine ⟨bodyAfter handlers seen, ?_, hasm, hmax, ?_⟩
    · rw [handleParsedFrame, if_neg hother.1, if_neg hother.2.1, if_neg hother.2.2.1,
        if_neg hother.2.2.2, if_pos hcont, hasm]
      rfl
    · have hbefore : ∀ g ∈ b :: before, g.isControl = false :=
        fun g hg => hms.not_control g (List.mem_append_left _ hg)
      rw [← joined_map_fragment hbefore]
      rw [openMessage_of_assembling hasm] at hopen
      exact Option.some.inj hopen

/-- `fin` marks the last frame of a message. -/
theorem IsMessageFrames.fin_iff {before after : List WsFrame} {f : WsFrame}
    (h : IsMessageFrames (before ++ f :: after)) : f.fin = true ↔ after = [] := by
  have hnc : f.isControl = false := h.not_control f (by simp)
  have hfinal : f.fragment.isFinal = f.fin := by
    unfold WsFrame.isControl at hnc
    unfold WsFrame.fragment at hnc ⊢
    split_ifs at hnc ⊢ <;> first | rfl | cases hnc
  rw [IsMessageFrames, List.map_append, List.map_cons] at h
  rw [← hfinal, h.isFinal_iff, List.map_eq_nil_iff]

/-- **A frame of a message** is taken in, and delivers the message if it is its last frame; or it
makes the message too big. -/
theorem effectsAt_message (handlers : WsHandlers) {seen : List WsFrame}
    {good : List (List WsFrame)} {before after : List WsFrame} {f : WsFrame}
    (h : FittingPrefix seen good before) (hms : IsMessageFrames (before ++ f :: after)) :
    effectsAt handlers seen f
      = if fits (messagePayload (before ++ [f])) then
          (if after = [] ∧ handlers.onMessage = true
            then [.onMessage (messagePayload (before ++ [f]))] else [])
        else tooBig handlers := by
  obtain ⟨fb, heq, -, hmax, hmsg⟩ := handleParsedFrame_message handlers h hms
  rw [effectsAt, heq, effects_appendAndDeliver handlers f hmax, hmsg, messagePayload_append,
    messagePayload_singleton]
  simp only [hms.fin_iff]

/-! ### Everything that happened on a fitting prefix -/

/-- The effects of the frames `seen`, from a fresh `FrameBody`. -/
def framesEffects (handlers : WsHandlers) (seen : List WsFrame) : List Effect :=
  (handleFrames handlers (FrameBody.ofMaxSize maxMsgSize) seen).2.flatten

theorem framesEffects_concat (handlers : WsHandlers) (seen : List WsFrame) (f : WsFrame) :
    framesEffects handlers (seen ++ [f])
      = framesEffects handlers seen ++ effectsAt handlers seen f := by
  rw [framesEffects, handleFrames_append, List.flatten_append]
  simp [handleFrames, framesEffects, effectsAt, bodyAfter]

/-- The buffers given to `do_write`. -/
def written (effects : List Effect) : List Bytes :=
  effects.filterMap fun
    | .doWrite frame => some frame
    | _ => none

theorem written_append (es es' : List Effect) :
    written (es ++ es') = written es ++ written es' := by
  rw [written, written, written, List.filterMap_append]

/-- The answers to the Pings among `fs`. -/
def pongs (fs : List WsFrame) : List Bytes :=
  (fs.filter fun f => f.opcode = wsPing).map fun f => writeFrame (pongFrame f.payloadData)

theorem pongs_concat (fs : List WsFrame) (f : WsFrame) :
    pongs (fs ++ [f]) = pongs fs
      ++ if f.opcode = wsPing then [writeFrame (pongFrame f.payloadData)] else [] := by
  rw [pongs, pongs, List.filter_append, List.map_append]
  by_cases hop : f.opcode = wsPing
  · simp [hop]
  · simp [hop]

/-- An effect other than `on_close` and `close`. -/
def Effect.KeepsOpen : Effect → Prop
  | .doWrite _ => True
  | .onMessage _ => True
  | _ => False

/-- Nothing is left in a buffer in which no message is being assembled. -/
def FrameBody.Clean (fb : FrameBody) : Prop :=
  fb.assembling = false → fb.opcode = 0 ∧ fb.msg = []

/-- What has happened on the prefix `seen`: the messages `good` were delivered, every Ping was
answered, and nothing else. -/
structure Served (handlers : WsHandlers) (seen : List WsFrame) (good : List (List WsFrame)) :
    Prop where
  delivered : delivered (framesEffects handlers seen)
    = if handlers.onMessage then good.map messagePayload else []
  written : written (framesEffects handlers seen) = pongs seen
  keepsOpen : ∀ e ∈ framesEffects handlers seen, e.KeepsOpen
  clean : (bodyAfter handlers seen).Clean

/-- The next frame of a message that fits completes `good` if it is the message's last. -/
theorem FittingPrefix.good_concat {seen : List WsFrame} {f : WsFrame}
    {good good' : List (List WsFrame)} {before before' after : List WsFrame}
    (h : FittingPrefix (seen ++ [f]) good before) (h' : FittingPrefix seen good' before')
    (hms : IsMessageFrames (before' ++ f :: after))
    (hfits : fits (messagePayload (before' ++ [f])) = true) :
    good.map messagePayload = good'.map messagePayload
      ++ if after = [] then [messagePayload (before' ++ [f])] else [] := by
  have hnc : ∀ g ∈ before' ++ [f], g.isControl = false := by
    intro g hg
    refine hms.not_control g ?_
    simp only [List.mem_append, List.mem_cons] at hg ⊢
    tauto
  have hrun := h.run_eq
  rw [IsMessageFrames, List.map_append, List.map_cons] at hms
  have hjoined : joined (before'.map WsFrame.fragment ++ [f.fragment])
      = messagePayload (before' ++ [f]) := by
    rw [← joined_map_fragment hnc, List.map_append, List.map_singleton]
  rw [List.map_append, List.map_singleton, run_concat, h'.run_eq, step_openOf fits hms, accept,
    hjoined, if_pos hfits] at hrun
  rw [← (Prod.mk.inj hrun).2]
  have hfinal := hms.isFinal_iff
  rw [List.map_eq_nil_iff] at hfinal
  by_cases hafter : after = []
  · rw [if_pos hafter, if_pos (hfinal.mpr hafter)]
    rfl
  · rw [if_neg hafter, if_neg fun hf => hafter (hfinal.mp hf)]
    rfl

/-- **A Ping or a Pong** is answered or ignored. -/
theorem Served.concat_control {handlers : WsHandlers} {seen : List WsFrame} {f : WsFrame}
    {good : List (List WsFrame)} (h : Served handlers seen good) (hpp : f.IsPingPong) :
    Served handlers (seen ++ [f]) good := by
  have heffects := effectsAt_control handlers seen hpp
  have hbody : bodyAfter handlers (seen ++ [f]) = bodyAfter handlers seen := by
    rw [bodyAfter_concat]
    obtain ⟨hfin, hop | hop⟩ := hpp
    · simp [handleParsedFrame, hop, hfin]
    · simp [handleParsedFrame, hop, hfin, wsPing, wsPong]
  refine ⟨?_, ?_, ?_, by rw [hbody]; exact h.clean⟩
  · rw [framesEffects_concat, delivered_append, h.delivered, heffects]
    split_ifs <;> simp [WebSocketsLib.delivered, handlePingFrame]
  · rw [framesEffects_concat, written_append, h.written, pongs_concat, heffects]
    split_ifs <;> rfl
  · rw [framesEffects_concat, heffects]
    refine List.forall_mem_append.mpr ⟨h.keepsOpen, ?_⟩
    split_ifs
    · exact List.forall_mem_singleton.mpr trivial
    · exact fun e he => absurd he List.not_mem_nil

/-- **A frame of a message** that fits writes nothing, and delivers the message if it is its last
frame. -/
theorem FittingPrefix.served_concat {handlers : WsHandlers} {seen : List WsFrame} {f : WsFrame}
    {good good' : List (List WsFrame)} {before before' after : List WsFrame}
    (hserved : Served handlers seen good') (h : FittingPrefix (seen ++ [f]) good before)
    (h' : FittingPrefix seen good' before') (hms : IsMessageFrames (before' ++ f :: after))
    (hfits : fits (messagePayload (before' ++ [f])) = true) :
    Served handlers (seen ++ [f]) good := by
  have heffects := effectsAt_message handlers h' hms
  rw [if_pos hfits] at heffects
  have hop : f.opcode ≠ wsPing := by
    intro hop
    have hnc := hms.not_control f (by simp)
    rw [WsFrame.isControl, WsFrame.fragment, hop] at hnc
    cases hnc
  refine ⟨?_, ?_, ?_, ?_⟩
  · rw [framesEffects_concat, delivered_append, hserved.delivered, heffects,
      h.good_concat h' hms hfits]
    by_cases hafter : after = [] <;> cases handlers.onMessage <;>
      simp [hafter, WebSocketsLib.delivered]
  · rw [framesEffects_concat, written_append, hserved.written, pongs_concat, heffects, if_neg hop]
    split_ifs <;> rfl
  · rw [framesEffects_concat, heffects]
    refine List.forall_mem_append.mpr ⟨hserved.keepsOpen, ?_⟩
    split_ifs
    · exact List.forall_mem_singleton.mpr trivial
    · exact fun e he => absurd he List.not_mem_nil
  · -- the buffer is reset at the last frame, and before it the message is being assembled
    obtain ⟨fb, heq, hasm, hmax, hmsg⟩ := handleParsedFrame_message handlers h' hms
    rw [bodyAfter_concat, heq, appendAndDeliver, append_eq hmax, hmsg]
    rw [messagePayload_append, messagePayload_singleton] at hfits
    rw [if_pos hfits]
    cases f.fin with
    | true => exact fun _ => ⟨rfl, rfl⟩
    | false =>
      intro hno
      rw [show fb.assembling = false from hno] at hasm
      cases hasm

/-- **A fitting prefix**: its messages have been delivered and its Pings answered. -/
theorem FittingPrefix.served (handlers : WsHandlers) {seen : List WsFrame}
    {good : List (List WsFrame)} {before : List WsFrame} (h : FittingPrefix seen good before) :
    Served handlers seen good := by
  induction seen using List.reverseRecOn generalizing good before with
  | nil =>
    have hgood : good.map messagePayload = [] := (Prod.mk.inj h.run_eq).2.symm
    refine ⟨?_, rfl, by simp [framesEffects, handleFrames], fun _ => ⟨rfl, rfl⟩⟩
    rw [hgood]
    split_ifs <;> rfl
  | append_singleton seen f ih =>
    rcases h.unconcat with ⟨hcontrol, h'⟩ | ⟨good', before', after, -, h', hms, hfits⟩
    · exact (ih h').concat_control (h.control f (by simp) hcontrol)
    · exact FittingPrefix.served_concat (ih h') h h' hms hfits

/-! ### Whole transcripts -/

/-- The prefix of a transcript before a given frame of a message. -/
theorem Transcript.fittingPrefix {fs : List WsFrame} {good later : List (List WsFrame)}
    {before after : List WsFrame} {f : WsFrame}
    (h : Transcript fs (good ++ (before ++ f :: after) :: later))
    (hgood : ∀ ms ∈ good, fits (messagePayload ms) = true)
    (hbefore : fits (messagePayload before) = true) :
    ∃ seen rest, fs = seen ++ f :: rest ∧ FittingPrefix seen good before := by
  have hdata : fs.filter (fun g => !g.isControl)
      = (good.flatten ++ before) ++ f :: (after ++ later.flatten) := by
    rw [h.data]
    simp
  -- cut the sequence where its data frames are cut; control frames may lie on both sides
  obtain ⟨l₁, l₂, rfl, hl₁, hl₂⟩ := List.filter_eq_append_iff.mp hdata
  obtain ⟨l₃, rest, rfl, hl₃, -, -⟩ := List.filter_eq_cons_iff.mp hl₂
  refine ⟨l₁ ++ l₃, rest, by simp, ?_, ?_, ?_, Or.inr ⟨f, after, ?_⟩, hbefore⟩
  · rw [List.filter_append, hl₁, List.filter_eq_nil_iff.mpr hl₃, List.append_nil]
  · intro g hg
    refine h.control g ?_
    simp only [List.mem_append] at hg ⊢
    tauto
  · exact fun ms hms => ⟨h.messages ms (by simp [hms]), hgood ms hms⟩
  · exact h.messages _ (by simp)

/-- A transcript within the limit is a fitting prefix of itself. -/
theorem Transcript.fittingPrefix_self {fs : List WsFrame} {msgs : List (List WsFrame)}
    (h : Transcript fs msgs) (hfits : ∀ ms ∈ msgs, fits (messagePayload ms) = true) :
    FittingPrefix fs msgs [] :=
  ⟨by rw [h.data, List.append_nil], h.control, fun ms hms => ⟨h.messages ms hms, hfits ms hms⟩,
    Or.inl rfl, rfl⟩

/-- A running total that ends above the limit exceeds it at some frame for the first time. -/
theorem exists_first_exceeding {ms : List WsFrame} (h : fits (messagePayload ms) = false) :
    ∃ before f after, ms = before ++ f :: after ∧ fits (messagePayload before) = true ∧
      fits (messagePayload (before ++ [f])) = false := by
  induction ms using List.reverseRecOn with
  | nil => cases h
  | append_singleton ms g ih =>
    cases hms : fits (messagePayload ms) with
    | true => exact ⟨ms, g, [], rfl, hms, h⟩
    | false =>
      obtain ⟨before, f, after, rfl, hbefore, hf⟩ := ih hms
      exact ⟨before, f, after ++ [g], by simp, hbefore, hf⟩

/-- The refusal in bytes: a final, unmasked Close frame with the code 1009, and `on_close`. -/
theorem tooBig_eq (handlers : WsHandlers) : tooBig handlers
    = .doWrite (0x88 :: 0x11 :: 0x03 :: 0xF1 :: bytes "Message too big")
      :: if handlers.onClose then [.onClose 1009 (bytes "Message too big")] else [] :=
  rfl

/-- **Completeness of reassembly**, with the size limit exact.

While every message is within the limit, the messages are delivered in order, every Ping is
answered by a Pong with its payload, no Close is queued, `on_close` is not called and the buffer
ends in its reset state; each message is delivered at its last frame.  The first message over the
limit is refused at the frame at which its running total exceeds the limit, when only the messages
before it have been delivered. -/
theorem handleFrames_complete (handlers : WsHandlers) {fs : List WsFrame}
    {msgs : List (List WsFrame)} (h : Transcript fs msgs) :
    ((∀ ms ∈ msgs, fits (messagePayload ms) = true) →
      Served handlers fs msgs ∧
      written (framesEffects handlers fs) = (fs.filter fun f => f.opcode = wsPing).map (fun f =>
        writeFrame { fin := true, opcode := wsPong, payloadData := f.payloadData,
                     payloadLength := UInt64.ofNat f.payloadData.length }) ∧
      (bodyAfter handlers fs).reset = bodyAfter handlers fs ∧
      ∀ good before f later, msgs = good ++ (before ++ [f]) :: later →
        ∃ seen rest, fs = seen ++ f :: rest ∧
          (seen.filter fun g => !g.isControl) = good.flatten ++ before ∧
          effectsAt handlers seen f
            = if handlers.onMessage then [.onMessage (messagePayload (before ++ [f]))] else []) ∧
    ∀ good big later, msgs = good ++ big :: later →
      (∀ ms ∈ good, fits (messagePayload ms) = true) → fits (messagePayload big) = false →
      ∃ seen f rest before after, fs = seen ++ f :: rest ∧ big = before ++ f :: after ∧
        (seen.filter fun g => !g.isControl) = good.flatten ++ before ∧
        fits (messagePayload before) = true ∧ fits (messagePayload (before ++ [f])) = false ∧
        Served handlers seen good ∧
        effectsAt handlers seen f
          = .doWrite (0x88 :: 0x11 :: 0x03 :: 0xF1 :: bytes "Message too big")
            :: if handlers.onClose then [.onClose 1009 (bytes "Message too big")] else [] := by
  refine ⟨fun hfits => ?_, fun good big later hmsgs hgood hbig => ?_⟩
  · -- the whole transcript is a fitting prefix, and so is the part before each frame
    have hself := h.fittingPrefix_self hfits
    have hserved := hself.served handlers
    refine ⟨hserved, hserved.written, ?_, ?_⟩
    · have hopen := (bodyAfter_spec handlers fs).2
      rw [hself.run_eq] at hopen
      have hasm : (bodyAfter handlers fs).assembling = false := by
        by_contra hno
        rw [openMessage_of_assembling (by simpa using hno)] at hopen
        cases hopen
      obtain ⟨hop, hmsg⟩ := hserved.clean hasm
      rw [FrameBody.reset, ← hasm, ← hop, ← hmsg]
    · rintro good before f later rfl
      have hfit := hfits (before ++ [f]) (by simp)
      have hbefore : fits (messagePayload before) = true := by
        rw [messagePayload_append] at hfit
        exact fits_append _ _ hfit
      obtain ⟨seen, rest, hfs, hseen⟩ :=
        h.fittingPrefix (fun ms hms => hfits ms (by simp [hms])) hbefore
      have heffects := effectsAt_message handlers hseen (h.messages (before ++ [f]) (by simp))
      refine ⟨seen, rest, hfs, hseen.data, ?_⟩
      simpa [hfit] using heffects
  · obtain ⟨before, f, after, rfl, hbefore, hf⟩ := exists_first_exceeding hbig
    subst hmsgs
    obtain ⟨seen, rest, hfs, hseen⟩ := h.fittingPrefix hgood hbefore
    have heffects := effectsAt_message handlers hseen (h.messages (before ++ f :: after) (by simp))
    rw [hf, if_neg (by decide), tooBig_eq] at heffects
    exact ⟨seen, f, rest, before, after, hfs, rfl, hseen.data, hbefore, hf, hseen.served handlers,
      heffects⟩

/-- A message in two fragments with a Ping between them. -/
def pingInside : List WsFrame :=
  [{ fin := false, opcode := wsText, payloadData := bytes "ab" },
    { fin := true, opcode := wsPing, payloadData := bytes "?" },
    { fin := true, opcode := wsCont, payloadData := bytes "c" }]

theorem handleFrames_complete_pingInside :
    Transcript pingInside [[pingInside[0], pingInside[2]]] ∧
      Served { onMessage := true } pingInside [[pingInside[0], pingInside[2]]] := by
  have h : Transcript pingInside [[pingInside[0], pingInside[2]]] :=
    ⟨by decide, by decide, by simpa using .fragmented (bytes "ab") (.last (bytes "c"))⟩
  exact ⟨h, ((handleFrames_complete { onMessage := true } h).1 (by decide)).1⟩

end WebSocketsLib
