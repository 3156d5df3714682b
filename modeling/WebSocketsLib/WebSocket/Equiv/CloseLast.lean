import WebSocketsLib.WebSocket.Equiv.CallbackOrder
import WebSocketsLib.WebSocket.Equiv.Transcript
import WebSocketsLib.WebSocket.Outgoing

/-!
# What follows a Close frame

`endsWithClose_of_guarded`: the outgoing stream has at most one Close frame, and nothing after it,
in every run in which no frame is queued behind a Close frame.  Which events queue a frame is
decided by the state before them (`Conn.queues`).

A connection whose write has failed hands nothing more to the socket (`Conn.Stuck`), so what is
queued there does not matter.
-/

namespace WebSocketsLib

open Runs

/-! ### Streams that end with a Close frame -/

/-- Nothing follows a Close frame. -/
def EndsWithClose (frames : List Bytes) : Prop :=
  ∀ before frame after, frames = before ++ frame :: after → isCloseFrame frame = true → after = []

theorem EndsWithClose.of_prefix {frames frames' : List Bytes} (h : EndsWithClose frames)
    (hfront : frames' <+: frames) : EndsWithClose frames' := by
  obtain ⟨more, rfl⟩ := hfront
  rintro before frame after rfl hclose
  rw [List.append_assoc, List.cons_append] at h
  exact (List.append_eq_nil_iff.mp (h before frame (after ++ more) rfl hclose)).1

theorem EndsWithClose.concat {frames : List Bytes}
    (h : ∀ frame ∈ frames, isCloseFrame frame = false) (last : Bytes) :
    EndsWithClose (frames ++ [last]) := by
  intro before frame after heq hclose
  -- the Close frame is not one of `frames`
  rcases List.eq_nil_or_concat after with rfl | ⟨after, last', rfl⟩
  · rfl
  · have hsplit : frames ++ [last] = (before ++ frame :: after) ++ [last'] := by
      rw [heq, List.concat_eq_append, List.append_assoc, List.cons_append]
    obtain ⟨rfl, -⟩ := List.append_inj' hsplit rfl
    rw [h frame (by simp)] at hclose
    cases hclose

/-- There is at most one Close frame. -/
theorem EndsWithClose.countP_le_one {frames : List Bytes} (h : EndsWithClose frames) :
    frames.countP isCloseFrame ≤ 1 := by
  induction frames with
  | nil => exact Nat.zero_le 1
  | cons frame frames ih =>
    by_cases hclose : isCloseFrame frame = true
    · obtain rfl := h [] frame frames rfl hclose
      exact List.countP_le_length
    · rw [List.countP_cons_of_neg hclose]
      apply ih
      rintro before frame' after rfl
      exact h (frame :: before) frame' after rfl

/-! ### The frames that an effect list queues -/

section

variable (handlers : WsHandlers) {f : WsFrame} {fb : FrameBody}

/-- The frame is answered: a Ping, a Close frame, or one that is refused. -/
def Answered (fb : FrameBody) (f : WsFrame) : Prop :=
  f.fin = true ∧ (f.opcode = wsPing ∨ f.opcode = wsClose) ∨ Offends fb f

/-- The frame is refused twice: the CONT branch goes on after its first refusal. -/
def AnsweredTwice (fb : FrameBody) (f : WsFrame) : Prop :=
  f.opcode = wsCont ∧ fb.assembling = false ∧ fb.wouldExceed f.payloadData.length = true

instance (fb : FrameBody) (f : WsFrame) : Decidable (Answered fb f) := by
  unfold Answered
  infer_instance

instance (fb : FrameBody) (f : WsFrame) : Decidable (AnsweredTwice fb f) := by
  unfold AnsweredTwice
  infer_instance

theorem written_reportError (code : UInt16) (reason : Bytes) :
    written (reportError handlers code reason) = [writeFrame (closeFrame code reason)] := by
  unfold reportError sendCloseWithReason
  split_ifs
  · rfl
  · rfl

theorem written_appendAndDeliver (h : fb.wouldExceed f.payloadData.length = false) :
    written (appendAndDeliver handlers f fb).2 = [] := by
  unfold appendAndDeliver FrameBody.append
  rw [if_neg (by rw [h]; exact Bool.false_ne_true)]
  dsimp only
  split_ifs
  · rfl
  · rfl
  · rfl

theorem length_written_appendAndDeliver :
    (written (appendAndDeliver handlers f fb).2).length ≤ 1 := by
  by_cases h : fb.wouldExceed f.payloadData.length = true
  · unfold appendAndDeliver FrameBody.append
    rw [if_pos h]
    show (written (reportError handlers _ _)).length ≤ 1
    rw [written_reportError]
    exact Nat.le_refl 1
  · rw [written_appendAndDeliver handlers (Bool.not_eq_true _ ▸ h)]
    exact Nat.zero_le 1

/-- A frame that is not refused twice is answered at most once. -/
theorem length_written_le_one (h : ¬ AnsweredTwice fb f) :
    (written (handleParsedFrame handlers f fb).2).length ≤ 1 := by
  have hreport : ∀ code reason, (written (reportError handlers code reason)).length ≤ 1 := by
    intro code reason
    rw [written_reportError]
    exact Nat.le_refl 1
  unfold handleParsedFrame
  split_ifs with _ _ _ _ _ _ _ _ hcont hasm
  · exact hreport _ _
  · exact Nat.le_refl 1
  · exact hreport _ _
  · exact Nat.zero_le 1
  · exact hreport _ _
  · obtain ⟨code, reason, heq⟩ := handleCloseFrame_eq f.payloadData
    rw [heq]
    exact Nat.le_refl 1
  · exact hreport _ _
  · exact length_written_appendAndDeliver handlers
  · -- the CONT branch goes on after its refusal, but the payload fits
    have hfits : fb.wouldExceed f.payloadData.length = false := by
      rw [← Bool.not_eq_true]
      exact fun hexc => h ⟨hcont, by simpa using hasm, hexc⟩
    show (written (continuationWithoutInitialFrame handlers
      ++ (appendAndDeliver handlers f fb).2)).length ≤ 1
    rw [written_append, written_appendAndDeliver handlers hfits, List.append_nil]
    exact hreport _ _
  · exact length_written_appendAndDeliver handlers
  · exact Nat.zero_le 1

/-- A frame that is not answered queues nothing. -/
theorem written_eq_nil (h : ¬ Answered fb f) :
    written (handleParsedFrame handlers f fb).2 = [] := by
  obtain ⟨hanswer, hoffends⟩ := not_or.mp h
  simp only [Offends, not_or, not_and, Bool.not_eq_true, Bool.not_eq_false] at hoffends
  obtain ⟨hcontrol, hdata, hcont⟩ := hoffends
  unfold handleParsedFrame
  by_cases hping : f.opcode = wsPing
  · exact absurd ⟨hcontrol (Or.inl hping), Or.inl hping⟩ hanswer
  rw [if_neg hping]
  by_cases hpong : f.opcode = wsPong
  · rw [if_pos hpong, hcontrol (Or.inr (Or.inl hpong))]
    rfl
  rw [if_neg hpong]
  by_cases hclose : f.opcode = wsClose
  · exact absurd ⟨hcontrol (Or.inr (Or.inr hclose)), Or.inr hclose⟩ hanswer
  rw [if_neg hclose]
  by_cases htext : f.opcode = wsText ∨ f.opcode = wsBinary
  · obtain ⟨hasm, hexc⟩ := hdata htext
    rw [if_pos htext, if_neg (by rw [hasm]; decide)]
    exact written_appendAndDeliver handlers hexc
  rw [if_neg htext]
  by_cases hop : f.opcode = wsCont
  · obtain ⟨hasm, hexc⟩ := hcont hop
    rw [if_pos hop, hasm]
    exact written_appendAndDeliver handlers hexc
  · rw [if_neg hop]
    rfl

end

namespace Conn

variable {app : App} {c c' c'' : Conn}

/-! ### Coroutines that queue nothing, or one frame -/

/-- The coroutine calls `do_write` no more. -/
def Quiet (effects : List Effect) : Prop :=
  WebSocketsLib.written effects = []

/-- **A coroutine that queues nothing.** -/
theorem sameQueue_runEffects (app : App) (owner : Owner) {effects : List Effect}
    (h : Quiet effects) (q : Option ℕ) (c : Conn) :
    SameQueue c (runEffects app owner effects q c) := by
  induction effects generalizing q c with
  | nil => exact sameQueue_finish owner c
  | cons e effects ih =>
    cases e with
    | doWrite frame => cases h
    | onMessage msg => exact (sameQueue_callback app _ c).trans (ih h _ _)
    | onClose code reason => exact (sameQueue_callback app _ c).trans (ih h _ _)
    | close code reason => exact (sameQueue_close app q code reason c).trans (ih h _ _)

/-- From `c` to `c'` one frame has been queued: the coroutine has left it to the one in the writing
loop, or has entered the loop. -/
def QueuesOne (owner : Owner) (frame : Bytes) (c c' : Conn) : Prop :=
  c.isWriting = true ∧ (∃ c₁, SameQueue c c₁ ∧ SameQueue (c₁.push frame) c') ∨
    c.isWriting = false ∧ ∃ c₁ rest, SameQueue c c₁ ∧ Quiet rest ∧
      c' = (c₁.push frame).enterWriting owner rest

theorem QueuesOne.of_sameQueue {owner : Owner} {frame : Bytes} (h : SameQueue c c')
    (h' : QueuesOne owner frame c' c'') : QueuesOne owner frame c c'' := by
  rcases h' with ⟨hw, c₁, hsame, hpush⟩ | ⟨hw, c₁, rest, hsame, hrest, heq⟩
  · exact Or.inl ⟨h.isWriting ▸ hw, c₁, h.trans hsame, hpush⟩
  · exact Or.inr ⟨h.isWriting ▸ hw, c₁, rest, h.trans hsame, hrest, heq⟩

/-- **A coroutine that queues one frame.** -/
theorem queuesOne_runEffects (app : App) (owner : Owner) {effects : List Effect} {frame : Bytes}
    (h : WebSocketsLib.written effects = [frame]) (q : Option ℕ) (c : Conn) :
    QueuesOne owner frame c (runEffects app owner effects q c) := by
  induction effects generalizing q c with
  | nil => cases h
  | cons e effects ih =>
    cases e with
    | doWrite frame' =>
      obtain ⟨rfl, hrest⟩ := List.cons.inj h
      unfold runEffects
      dsimp only
      split_ifs with hw
      · exact Or.inl ⟨hw, c, SameQueue.refl c, sameQueue_runEffects app owner hrest _ _⟩
      · exact Or.inr ⟨Bool.not_eq_true _ ▸ hw, c, effects, SameQueue.refl c, hrest, rfl⟩
    | onMessage msg => exact (ih h q _).of_sameQueue (sameQueue_callback app _ c)
    | onClose code reason => exact (ih h q _).of_sameQueue (sameQueue_callback app _ c)
    | close code reason => exact (ih h q _).of_sameQueue (sameQueue_close app q code reason c)

/-! ### The invariant -/

/-- A write has failed: `is_writing_` is set, and nobody is in the writing loop. -/
def Stuck (c : Conn) : Prop :=
  c.isWriting = true ∧ c.writers = []

/-- Whether the event queues a frame. -/
def queues (c : Conn) : Event → Bool
  | .resume =>
    match c.readLoop with
    | .got f => decide (Answered c.fb f)
    | _ => false
  | .runTask =>
    match c.tasks with
    | .closeAsync _ _ :: _ => true
    | _ :: _ => decide (c.state = .wsOpen)
    | [] => false
  | _ => false

/-- Whether the event queues two Close frames. -/
def queuesTwice (c : Conn) : Event → Bool
  | .resume =>
    match c.readLoop with
    | .got f => decide (AnsweredTwice c.fb f)
    | _ => false
  | _ => false

/-- No frame is queued behind a Close frame: unless its writer is gone, the event does not queue two
Close frames, and with a Close frame queued it does not queue any. -/
def CloseEnds (c : Conn) (e : Event) : Prop :=
  c.Stuck ∨ c.queuesTwice e = false ∧ (c.queued.any isCloseFrame = true → c.queues e = false)

instance (c : Conn) (e : Event) : Decidable (c.CloseEnds e) := by
  unfold CloseEnds Stuck
  infer_instance

end Conn

namespace Outgoing

variable {app : App} {c c' : Conn} {handed : List Bytes}

/-- The queue of a connection whose writer is alive: what has been queued has been handed to the
socket or is behind the front of the queue. -/
def Live (c : Conn) (handed : List Bytes) : Prop :=
  c.isWriting = false ∧ c.writers = [] ∧ c.writeQueue = [] ∧ c.queued = handed ∨
    c.isWriting = true ∧ ∃ w queue, c.writers = [w] ∧ c.writeQueue = w.buf :: queue ∧
      c.queued = handed ++ queue

/-- The coroutine in the writing loop queues nothing more; what has been handed to the socket ends
with a Close frame, and so does what has been queued unless the writer is gone. -/
structure CloseInv (o : Outgoing) : Prop where
  quiet : ∀ w ∈ o.conn.writers, Conn.Quiet w.rest
  handed : EndsWithClose o.handed
  queue : o.conn.Stuck ∨ EndsWithClose o.conn.queued ∧ Live o.conn o.handed

theorem CloseInv.live (h : CloseInv { conn := c, handed }) :
    c.Stuck ∨ EndsWithClose c.queued ∧ Live c handed :=
  h.queue

theorem CloseInv.of_live (hquiet : ∀ w ∈ c.writers, Conn.Quiet w.rest)
    (hends : EndsWithClose c.queued) (h : Live c handed) : CloseInv { conn := c, handed } := by
  refine ⟨hquiet, hends.of_prefix ?_, Or.inr ⟨hends, h⟩⟩
  rcases h with ⟨-, -, -, hqueued⟩ | ⟨-, w, queue, -, -, hqueued⟩
  · exact ⟨[], by rw [hqueued, List.append_nil]⟩
  · exact ⟨queue, hqueued.symm⟩

/-- Nothing has been queued. -/
theorem CloseInv.sameQueue (h : CloseInv { conn := c, handed }) (hsame : Conn.SameQueue c c') :
    CloseInv { conn := c', handed } := by
  obtain ⟨hqueue, hwriting, hwriters, hqueued⟩ := hsame
  refine ⟨?_, h.handed, ?_⟩
  · show ∀ w ∈ c'.writers, Conn.Quiet w.rest
    rw [hwriters]
    exact h.quiet
  · show c'.Stuck ∨ EndsWithClose c'.queued ∧ Live c' handed
    unfold Conn.Stuck Live
    rw [hqueue, hwriting, hwriters, hqueued]
    exact h.queue

/-- Nobody writes any more. -/
theorem CloseInv.stuck (h : CloseInv { conn := c, handed }) (hstuck : c'.Stuck) :
    CloseInv { conn := c', handed } := by
  refine ⟨?_, h.handed, Or.inl hstuck⟩
  show ∀ w ∈ c'.writers, Conn.Quiet w.rest
  rw [hstuck.2]
  exact fun w hw => absurd hw List.not_mem_nil

/-- A frame for the coroutine in the loop, which will find it behind the other buffers. -/
theorem CloseInv.push {c₁ : Conn} {frame : Bytes} (h : CloseInv { conn := c, handed })
    (hno : ∀ f ∈ c.queued, isCloseFrame f = false) (hw : c.isWriting = true)
    (hsame : Conn.SameQueue c c₁) (hpush : Conn.SameQueue (c₁.push frame) c') :
    CloseInv {
      conn := c'
      handed := handed ++ (c'.writers.drop c.writers.length).map Writer.buf } := by
  have hwriters : c'.writers = c.writers := hpush.writers.trans hsame.writers
  have hqueue : c'.writeQueue = c.writeQueue ++ [frame] :=
    hpush.writeQueue.trans (congrArg (· ++ [frame]) hsame.writeQueue)
  have hqueued : c'.queued = c.queued ++ [frame] :=
    hpush.queued.trans (congrArg (· ++ [frame]) hsame.queued)
  have hwriting : c'.isWriting = true := (hpush.isWriting.trans hsame.isWriting).trans hw
  rw [hwriters, List.drop_length, List.map_nil, List.append_nil]
  rcases h.live with hstuck | ⟨-, ⟨hidle, -⟩ | ⟨-, w, queue, hws, hq, hqd⟩⟩
  · exact h.stuck ⟨hwriting, hwriters.trans hstuck.2⟩
  · exact absurd (hidle.symm.trans hw) Bool.false_ne_true
  · apply CloseInv.of_live
    · rw [hwriters]
      exact h.quiet
    · rw [hqueued]
      exact EndsWithClose.concat hno frame
    · refine Or.inr ⟨hwriting, w, queue ++ [frame], hwriters.trans hws, ?_, ?_⟩
      · rw [hqueue, hq, List.cons_append]
      · rw [hqueued, hqd, List.append_assoc]

/-- A frame that the coroutine hands to the socket. -/
theorem CloseInv.enterWriting {c₁ : Conn} {frame : Bytes} (h : CloseInv { conn := c, handed })
    (hno : ∀ f ∈ c.queued, isCloseFrame f = false) (hw : c.isWriting = false)
    (hsame : Conn.SameQueue c c₁) (owner : Owner) {rest : List Effect} (hrest : Conn.Quiet rest)
    (hc' : c' = (c₁.push frame).enterWriting owner rest) :
    CloseInv {
      conn := c'
      handed := handed ++ (c'.writers.drop c.writers.length).map Writer.buf } := by
  rcases h.live with hstuck | ⟨-, ⟨-, hws, hq, hqd⟩ | ⟨hbusy, -⟩⟩
  · exact absurd (hw.symm.trans hstuck.1) Bool.false_ne_true
  · have hws₁ : c₁.writers = [] := hsame.writers.trans hws
    have hq₁ : c₁.writeQueue = [] := hsame.writeQueue.trans hq
    have hqd₁ : c₁.queued = handed := hsame.queued.trans hqd
    have hwriters : c'.writers
        = [{ owner, buf := frame, rest, queuedAt := (c₁.push frame).queued.length }] := by
      have hbuf : (c₁.push frame).writeQueue.headD [] = frame := by
        show (c₁.writeQueue ++ [frame]).headD [] = frame
        rw [hq₁]
        rfl
      rw [hc']
      unfold Conn.enterWriting
      dsimp only
      rw [hbuf]
      show c₁.writers ++ _ = _
      rw [hws₁, List.nil_append]
    have hqueue : c'.writeQueue = [frame] := by
      rw [hc']
      show c₁.writeQueue ++ [frame] = [frame]
      rw [hq₁, List.nil_append]
    have hqueued : c'.queued = handed ++ [frame] := by
      rw [hc']
      exact congrArg (· ++ [frame]) hqd₁
    have hwriting : c'.isWriting = true := by
      rw [hc']
      rfl
    rw [hwriters, hws, List.length_nil, List.drop_zero]
    apply CloseInv.of_live
    · rw [hwriters]
      exact List.forall_mem_singleton.mpr hrest
    · rw [hqueued, ← hqd]
      exact EndsWithClose.concat hno frame
    · refine Or.inr ⟨hwriting, _, [], hwriters, hqueue, ?_⟩
      rw [hqueued, List.append_nil, List.map_singleton]
  · exact absurd (hw.symm.trans hbusy) Bool.false_ne_true

/-- One frame has been queued, with no Close frame before it. -/
theorem CloseInv.queuesOne {owner : Owner} {frame : Bytes} (h : CloseInv { conn := c, handed })
    (hno : c.queued.any isCloseFrame = false) (hone : Conn.QueuesOne owner frame c c') :
    CloseInv {
      conn := c'
      handed := handed ++ (c'.writers.drop c.writers.length).map Writer.buf } := by
  have hnoClose : ∀ f ∈ c.queued, isCloseFrame f = false := by
    intro f hf
    rw [List.any_eq_false] at hno
    exact Bool.not_eq_true _ ▸ hno f hf
  rcases hone with ⟨hw, c₁, hsame, hpush⟩ | ⟨hw, c₁, rest, hsame, hrest, heq⟩
  · exact h.push hnoClose hw hsame hpush
  · exact h.enterWriting hnoClose hw hsame owner hrest heq

/-- A coroutine leaves a stuck queue stuck. -/
theorem keeps_stuck (app : App) : Conn.Keeps app (fun _ => True) Conn.Stuck where
  spawn _ h := h
  close {c} {q} code reason _ h := by
    obtain ⟨-, hwriting, hwriters, -⟩ := Conn.sameQueue_close app q code reason c
    exact ⟨hwriting.trans h.1, hwriters.trans h.2⟩
  onMessage _ _ h := h
  onClose _ _ _ h := h
  push _ _ h := h
  enterWriting {c} frame owner rest hw _ h := by
    rw [h.1] at hw
    cases hw
  finish {c} owner h := by
    obtain ⟨-, hwriting, hwriters, -⟩ := Conn.sameQueue_finish owner c
    exact ⟨hwriting.trans h.1, hwriters.trans h.2⟩

/-- **A coroutine** that queues at most one frame, and none behind a Close frame. -/
theorem CloseInv.runEffects (h : CloseInv { conn := c, handed }) (owner : Owner)
    {effects : List Effect} (q : Option ℕ)
    (hok : c.Stuck ∨ (written effects).length ≤ 1 ∧
      (c.queued.any isCloseFrame = true → written effects = [])) :
    CloseInv { conn := Conn.runEffects app owner effects q c
               handed := handed ++ ((Conn.runEffects app owner effects q c).writers.drop
                 c.writers.length).map Writer.buf } := by
  rcases hok with hstuck | ⟨hone, hnone⟩
  · have hstuck' := (keeps_stuck app).runEffects owner (fun e (_ : e ∈ effects) => trivial) q hstuck
    rw [hstuck'.2, List.drop_nil, List.map_nil, List.append_nil]
    exact h.stuck hstuck'
  · cases hwritten : written effects with
    | nil =>
      have hsame := Conn.sameQueue_runEffects app owner hwritten q c
      rw [hsame.writers, List.drop_length, List.map_nil, List.append_nil]
      exact h.sameQueue hsame
    | cons frame more =>
      obtain rfl : more = [] := by
        rw [hwritten, List.length_cons] at hone
        exact List.eq_nil_of_length_eq_zero (by omega)
      have hno : c.queued.any isCloseFrame = false := by
        rw [← Bool.not_eq_true]
        intro hclose
        rw [hnone hclose] at hwritten
        cases hwritten
      exact h.queuesOne hno (Conn.queuesOne_runEffects app owner hwritten q c)

/-- The effects of a frame that may be handled. -/
theorem length_written_resume {f : WsFrame} (handlers : WsHandlers) (hgot : c.readLoop = .got f)
    (hok : c.CloseEnds .resume) :
    c.Stuck ∨ (written (handleParsedFrame handlers f c.fb).2).length ≤ 1 ∧
      (c.queued.any isCloseFrame = true → written (handleParsedFrame handlers f c.fb).2 = []) := by
  rcases hok with hstuck | ⟨htwice, hqueues⟩
  · exact Or.inl hstuck
  · simp only [Conn.queuesTwice, Conn.queues, hgot, decide_eq_false_iff_not] at htwice hqueues
    exact Or.inr ⟨length_written_le_one handlers htwice,
      fun hclose => written_eq_nil handlers (hqueues hclose)⟩

/-- The effects of a task that may be started. -/
theorem length_written_runTask {t : Task} {tasks : List Task} (htasks : c.tasks = t :: tasks)
    (hok : c.CloseEnds .runTask) :
    c.Stuck ∨ (written (c.taskEffects t)).length ≤ 1 ∧
      (c.queued.any isCloseFrame = true → written (c.taskEffects t) = []) := by
  rcases hok with hstuck | ⟨-, hqueues⟩
  · exact Or.inl hstuck
  · simp only [Conn.queues, htasks] at hqueues
    refine Or.inr ?_
    cases t with
    | closeAsync code reason =>
      refine ⟨Nat.le_refl 1, fun hclose => ?_⟩
      cases hqueues hclose
    | sendText payload | sendBinary payload =>
      unfold Conn.taskEffects
      split_ifs with hopen
      · refine ⟨Nat.le_refl 1, fun hclose => ?_⟩
        exact absurd hopen (of_decide_eq_false (hqueues hclose))
      · exact ⟨Nat.zero_le 1, fun _ => rfl⟩

/-- The writer that a completion or a failure is about is the only one. -/
theorem CloseInv.writing (h : CloseInv { conn := c, handed }) {k : ℕ} {w : Writer}
    (hw : c.writers[k]? = some w) : ∃ queue, c.isWriting = true ∧ c.writers = [w] ∧
      c.writers.eraseIdx k = [] ∧ EndsWithClose c.queued ∧ c.writeQueue = w.buf :: queue ∧
      c.queued = handed ++ queue := by
  rcases h.live with hstuck | ⟨hends, ⟨-, hws, -⟩ | ⟨hwriting, w', queue, hws, hqueue, hqueued⟩⟩
  · rw [hstuck.2] at hw
    cases hw
  · rw [hws] at hw
    cases hw
  · obtain ⟨hk, hget⟩ := List.getElem?_eq_some_iff.mp (hws ▸ hw)
    obtain rfl : k = 0 := by
      rw [List.length_singleton] at hk
      omega
    obtain rfl : w' = w := hget
    refine ⟨queue, hwriting, hws, ?_, hends, hqueue, hqueued⟩
    rw [hws]
    rfl

/-- The last write completes: nothing is left in the queue, and the coroutine goes on without a
write. -/
theorem CloseInv.writeLast (h : CloseInv { conn := c, handed }) {k : ℕ} {w : Writer}
    (hw : c.writers[k]? = some w) (hq : c.writeQueue.tail = []) (hc' : c' = { c with
      written := c.written ++ [w.buf]
      writeQueue := []
      writers := c.writers.eraseIdx k
      isWriting := false }) :
    CloseInv {
      conn := Conn.runEffects app w.owner w.rest (some w.queuedAt) c'
      handed := handed ++ ((Conn.runEffects app w.owner w.rest (some w.queuedAt) c').writers.drop
        (outstanding c (.writeDone k))).map Writer.buf } := by
  obtain ⟨queue, -, hws, herase, hends, hqueue, hqueued⟩ := h.writing hw
  have hquiet : Conn.Quiet w.rest := h.quiet w (by rw [hws]; exact List.mem_singleton_self w)
  obtain rfl : queue = [] := by
    rw [hqueue] at hq
    exact hq
  have hnobody : c'.writers = [] := by
    rw [hc']
    exact herase
  have hidle : CloseInv { conn := c', handed } := by
    apply CloseInv.of_live
    · rw [hnobody]
      exact fun w hw => absurd hw List.not_mem_nil
    · rw [hc']
      exact hends
    · rw [hc']
      refine Or.inl ⟨rfl, herase, rfl, ?_⟩
      rw [← List.append_nil handed]
      exact hqueued
  have hsame := Conn.sameQueue_runEffects app w.owner hquiet (some w.queuedAt) c'
  rw [hsame.writers.trans hnobody, List.drop_nil, List.map_nil, List.append_nil]
  exact hidle.sameQueue hsame

/-- Another write completes: the coroutine hands over the next buffer. -/
theorem CloseInv.writeNext (h : CloseInv { conn := c, handed }) {k : ℕ} {w : Writer} {buf : Bytes}
    {queue : List Bytes} (hw : c.writers[k]? = some w) (hq : c.writeQueue.tail = buf :: queue)
    (hc' : c' = { c with
      written := c.written ++ [w.buf]
      writeQueue := buf :: queue
      writers := c.writers.eraseIdx k ++ [{ w with buf }] }) :
    CloseInv {
      conn := c'
      handed := handed ++ (c'.writers.drop (outstanding c (.writeDone k))).map Writer.buf } := by
  obtain ⟨queue', hwriting, hws, herase, hends, hqueue, hqueued⟩ := h.writing hw
  have hnext : queue' = buf :: queue := by
    rw [hqueue] at hq
    exact hq
  have hwriters : c'.writers = [{ w with buf }] := by
    rw [hc']
    show c.writers.eraseIdx k ++ _ = _
    rw [herase, List.nil_append]
  have hbegun : c'.writers.drop (outstanding c (.writeDone k)) = [{ w with buf }] := by
    rw [hwriters, outstanding, hws]
    rfl
  rw [hbegun]
  apply CloseInv.of_live
  · rw [hwriters]
    refine List.forall_mem_singleton.mpr ?_
    exact h.quiet w (by rw [hws]; exact List.mem_singleton_self w)
  · rw [hc']
    exact hends
  · refine Or.inr ⟨?_, _, queue, hwriters, ?_, ?_⟩
    · rw [hc']
      exact hwriting
    · rw [hc']
    · rw [hc']
      show c.queued = handed ++ [buf] ++ queue
      rw [hqueued, hnext, List.append_assoc]
      rfl

/-- A write fails: its coroutine was the only one. -/
theorem CloseInv.writeFail (h : CloseInv { conn := c, handed }) {k : ℕ} {w : Writer}
    (hw : c.writers[k]? = some w) (hc' : c' = { c with
      writers := c.writers.eraseIdx k
      readLoop := if w.owner = .readLoop then .threw else c.readLoop }) (n : ℕ) :
    CloseInv { conn := c', handed := handed ++ (c'.writers.drop n).map Writer.buf } := by
  obtain ⟨queue, hwriting, -, herase, -, -, -⟩ := h.writing hw
  have hstuck : c'.Stuck := by
    rw [hc']
    exact ⟨hwriting, herase⟩
  rw [hstuck.2, List.drop_nil, List.map_nil, List.append_nil]
  exact h.stuck hstuck

/-- **Every step** that queues no frame behind a Close frame keeps the invariant. -/
theorem closeInv_step {o o' : Outgoing} {e : Conn.Event} (h : o.CloseInv) (hok : o.conn.CloseEnds e)
    (hstep : o.step app e = some o') : o'.CloseInv := by
  obtain ⟨c, handed⟩ := o
  obtain ⟨c', hc', rfl⟩ := Option.map_eq_some_iff.mp hstep
  have hnone : ∀ {d : Conn}, Conn.SameQueue c d →
      CloseInv {
        conn := d
        handed := handed ++ (d.writers.drop c.writers.length).map Writer.buf } := by
    intro d hsame
    rw [hsame.writers, List.drop_length, List.map_nil, List.append_nil]
    exact h.sameQueue hsame
  cases Conn.stepped_of_step hc' with
  | start hnot => exact hnone (Conn.sameQueue_start app c)
  | call k => exact hnone (Conn.sameQueue_call app k c)
  | recv f hreading hopen => exact hnone ⟨rfl, rfl, rfl, rfl⟩
  | readError hreading => exact hnone ⟨rfl, rfl, rfl, rfl⟩
  | resume f hgot =>
    have hsame : Conn.SameQueue c { c with fb := (handleParsedFrame app.handlers f c.fb).1 } :=
      ⟨rfl, rfl, rfl, rfl⟩
    have hwritten := length_written_resume app.handlers hgot hok
    exact (h.sameQueue hsame).runEffects .readLoop none hwritten
  | runTask t tasks htasks =>
    have hsame : Conn.SameQueue c { c with tasks } := ⟨rfl, rfl, rfl, rfl⟩
    have hwritten := length_written_runTask (c := c) htasks hok
    exact (h.sameQueue hsame).runEffects .task none hwritten
  | writeLast k w hw hq => exact h.writeLast hw hq rfl
  | writeNext k w buf queue hw hq => exact h.writeNext hw hq rfl
  | writeFail k w hw => exact h.writeFail hw rfl _

/-- The `WebSocket` as it is constructed. -/
theorem closeInv_empty : CloseInv {} := by
  apply CloseInv.of_live
  · exact fun w hw => absurd hw List.not_mem_nil
  · intro before frame after heq
    simp at heq
  · exact Or.inl ⟨rfl, rfl, rfl, rfl⟩

/-- **A Close frame ends the outgoing stream** in every run that queues no frame behind a Close
frame. -/
theorem endsWithClose_of_guarded (app : App) (es : List Conn.Event) {o : Outgoing}
    (hok : Guarded (step app) (fun o e => o.conn.CloseEnds e) {} es)
    (hrun : run (step app) {} es = some o) :
    o.handed.countP isCloseFrame ≤ 1 ∧ EndsWithClose o.handed := by
  have hinv : o.CloseInv :=
    guarded_invariant (fun h hok hstep => closeInv_step h hok hstep) closeInv_empty hok hrun
  exact ⟨hinv.handed.countP_le_one, hinv.handed⟩

/-- A message, and then the graceful close. -/
def sendThenClose : List Conn.Event :=
  [.start, .call (.sendTextAsync (bytes "hi")), .call (.closeAsync 1000 []), .runTask, .runTask,
    .writeDone 0, .writeDone 0]

theorem endsWithClose_of_guarded_sendThenClose :
    ∃ o, run (step { handlers := {} }) {} sendThenClose = some o ∧
      o.handed.countP isCloseFrame ≤ 1 ∧ EndsWithClose o.handed :=
  ⟨_, rfl, endsWithClose_of_guarded { handlers := {} } sendThenClose (by decide) rfl⟩

/-- The graceful close and a message, both called while the connection is open. -/
def closeThenSend : List Conn.Event :=
  [.start, .call (.closeAsync 1000 []), .call (.sendTextAsync (bytes "hi")), .runTask, .runTask,
    .writeDone 0]

/-- The message is handed to the socket after the Close frame. -/
theorem not_endsWithClose_closeThenSend :
    ¬ ∀ (app : App) (es : List Conn.Event) (o : Outgoing),
      run (step app) {} es = some o →
        o.handed.countP isCloseFrame ≤ 1 ∧ EndsWithClose o.handed := by
  intro h
  obtain ⟨-, hends⟩ := h { handlers := {} } closeThenSend _ rfl
  have hafter : ([[0x81, 2, 0x68, 0x69]] : List Bytes) = [] :=
    hends [] [0x88, 2, 0x03, 0xE8] [[0x81, 2, 0x68, 0x69]] (by decide) (by decide)
  cases hafter

end Outgoing

end WebSocketsLib
