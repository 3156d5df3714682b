import WebSocketsLib.Lib.Decoder
import WebSocketsLib.WebSocket.Equiv.GracefulClose
import WebSocketsLib.WebSocket.Equiv.Outgoing
import WebSocketsLib.WebSocket.Equiv.ReadStream
import WebSocketsLib.WebSocket.Equiv.Transcript
import WebSocketsLib.WebSocket.Equiv.WsFrame
import Mathlib.Data.List.TakeWhile

/-!
# What the application receives

`ReadStream.received_of_run`: whatever else happens on the connection, `on_message` has received
the first of the messages that the peer's bytes determine, and all of them when the read loop waits
for the next frame.
-/

namespace WebSocketsLib

open Runs

/-! ### The frames and the messages of a byte stream -/

/-- The read loop decodes what it reads, and nothing behind it. -/
theorem proper_decodeFrame : Decoder.Proper decodeFrame where
  shrinks h := by
    obtain ⟨b0, b1, ext, key, payload, rfl, -⟩ := exists_of_decodeFrame h
    simp only [List.length_cons, List.length_append]
    omega
  append h u := decodeFrame_append_of_some h u

/-- The frames at the front of a byte stream. -/
def framesOf (s : Bytes) : List WsFrame :=
  Decoder.all decodeFrame s

/-- Whether the frame closes the connection. -/
def WsFrame.closes (f : WsFrame) : Bool :=
  f.opcode == wsClose && f.fin

/-- The frames before the first Close frame. -/
def beforeClose (fs : List WsFrame) : List WsFrame :=
  fs.takeWhile fun f => !f.closes

/-- What the frames before the first Close frame deliver, handled one after another. -/
def messagesOf (handlers : WsHandlers) (s : Bytes) : List Bytes :=
  delivered (framesEffects handlers (beforeClose (framesOf s)))

/-- The messages that `on_message` has received. -/
def receivedMessages (trace : List Callback) : List Bytes :=
  trace.filterMap fun
    | .onMessage msg => some msg
    | _ => none

theorem receivedMessages_append (xs ys : List Callback) :
    receivedMessages (xs ++ ys) = receivedMessages xs ++ receivedMessages ys :=
  List.filterMap_append

theorem framesEffects_append (handlers : WsHandlers) (fs gs : List WsFrame) :
    framesEffects handlers fs <+: framesEffects handlers (fs ++ gs) := by
  unfold framesEffects
  rw [handleFrames_append, List.flatten_append]
  exact List.prefix_append _ _

/-- More frames deliver more messages. -/
theorem delivered_framesEffects_prefix (handlers : WsHandlers) {fs gs : List WsFrame}
    (h : fs <+: gs) : delivered (framesEffects handlers fs)
      <+: delivered (framesEffects handlers gs) := by
  obtain ⟨later, rfl⟩ := h
  exact (framesEffects_append handlers fs later).filterMap _

/-- Frames without a Close frame at the front of others. -/
theorem prefix_beforeClose {fs gs : List WsFrame} (h : fs <+: gs)
    (hopen : ∀ f ∈ fs, f.closes = false) : fs <+: beforeClose gs := by
  obtain ⟨later, rfl⟩ := h
  unfold beforeClose
  rw [List.takeWhile_append_of_pos]
  · exact List.prefix_append _ _
  · intro f hf
    rw [hopen f hf]
    rfl

theorem beforeClose_of_open {fs : List WsFrame} (hopen : ∀ f ∈ fs, f.closes = false) :
    beforeClose fs = fs := by
  unfold beforeClose
  rw [List.takeWhile_eq_self_iff]
  intro f hf
  rw [hopen f hf]
  rfl

/-! ### A coroutine up to its next suspension -/

namespace Conn

variable {app : App} {c c' c'' : Conn}

/-- The read loop is where it was, and has received nothing. -/
structure SameLoop (c c' : Conn) : Prop where
  readLoop : c'.readLoop = c.readLoop
  fb : c'.fb = c.fb
  received : receivedMessages c'.trace = receivedMessages c.trace

theorem SameLoop.refl (c : Conn) : SameLoop c c :=
  ⟨rfl, rfl, rfl⟩

theorem SameLoop.trans (h : SameLoop c c') (h' : SameLoop c' c'') : SameLoop c c'' :=
  ⟨h'.readLoop.trans h.readLoop, h'.fb.trans h.fb, h'.received.trans h.received⟩

theorem sameLoop_close (app : App) (q : Option ℕ) (code : UInt16) (reason : Bytes) (c : Conn) :
    SameLoop c (c.close app q code reason) := by
  rcases close_cases app c q code reason with ⟨-, heq⟩ | ⟨-, tasks, heq⟩
  · rw [heq]
    exact SameLoop.refl c
  · rw [heq]
    refine ⟨rfl, rfl, ?_⟩
    rw [receivedMessages_append]
    split_ifs
    · exact List.append_nil _
    · exact List.append_nil _

theorem sameLoop_call (app : App) (k : Call) (c : Conn) : SameLoop c (c.call app k) := by
  cases k with
  | close code reason => exact sameLoop_close app none code reason c
  | closeAsync code reason => exact ⟨rfl, rfl, rfl⟩
  | sendTextAsync payload | sendBinaryAsync payload =>
    rw [call]
    split_ifs
    · exact ⟨rfl, rfl, rfl⟩
    · exact SameLoop.refl c

theorem sameLoop_foldl_call (app : App) (ks : List Call) (c : Conn) :
    SameLoop c (ks.foldl (call app) c) := by
  induction ks generalizing c with
  | nil => exact SameLoop.refl c
  | cons k ks ih => exact (sameLoop_call app k c).trans (ih (c.call app k))

theorem receivedMessages_callback (app : App) (cb : Callback) (c : Conn) :
    receivedMessages (c.callback app cb).trace
      = receivedMessages c.trace ++ receivedMessages [cb] := by
  have hcalls := (sameLoop_foldl_call app (app.react (c.trace ++ [cb]))
    { c with trace := c.trace ++ [cb] }).received
  rw [receivedMessages_append] at hcalls
  exact hcalls

theorem readLoop_callback (app : App) (cb : Callback) (c : Conn) :
    (c.callback app cb).readLoop = c.readLoop ∧ (c.callback app cb).fb = c.fb := by
  have hcalls := sameLoop_foldl_call app (app.react (c.trace ++ [cb]))
    { c with trace := c.trace ++ [cb] }
  exact ⟨hcalls.readLoop, hcalls.fb⟩

/-- What a coroutine has done from one suspension to the next: all its effects, or those up to the
buffer that it has handed to the socket. -/
inductive Ran (owner : Owner) (effects : List Effect) (c c' : Conn) : Prop
  | finished (hwriters : c'.writers = c.writers)
      (hloop : c'.readLoop = if owner = .readLoop then
        (if c'.state = .wsOpen then .reading else .returned) else c.readLoop)
      (hreceived : receivedMessages c'.trace = receivedMessages c.trace ++ delivered effects)
      (hclosed : (∃ code reason, Effect.close code reason ∈ effects) → c'.state = .wsClosed)
  | suspended (before : List Effect) (frame : Bytes) (rest : List Effect) (w : Writer)
      (heffects : effects = before ++ .doWrite frame :: rest)
      (hwriters : c'.writers = c.writers ++ [w]) (howner : w.owner = owner) (hrest : w.rest = rest)
      (hloop : c'.readLoop = if owner = .readLoop then .handling else c.readLoop)
      (hreceived : receivedMessages c'.trace = receivedMessages c.trace ++ delivered before)

/-- An effect that does not suspend the coroutine. -/
theorem Ran.cons {owner : Owner} {e : Effect} {effects : List Effect}
    (h : Ran owner effects c' c'') (hwriters : c'.writers = c.writers)
    (hloop : c'.readLoop = c.readLoop)
    (hreceived : receivedMessages c'.trace = receivedMessages c.trace ++ delivered [e])
    (hclosed : (∃ code reason, e = .close code reason) → c''.state = .wsClosed) :
    Ran owner (e :: effects) c c'' := by
  have hdelivered (es : List Effect) : delivered (e :: es) = delivered [e] ++ delivered es :=
    delivered_append [e] es
  cases h with
  | finished hwriters' hloop' hreceived' hclosed' =>
    refine .finished (hwriters'.trans hwriters) ?_ ?_ ?_
    · rw [hloop', hloop]
    · rw [hreceived', hreceived, hdelivered effects, List.append_assoc]
    · rintro ⟨code, reason, hmem⟩
      rcases List.mem_cons.mp hmem with heq | hin
      · exact hclosed ⟨code, reason, heq.symm⟩
      · exact hclosed' ⟨code, reason, hin⟩
  | suspended before frame rest w heffects hwriters' howner hrest hloop' hreceived' =>
    refine .suspended (e :: before) frame rest w ?_ ?_ howner hrest ?_ ?_
    · rw [heffects, List.cons_append]
    · rw [hwriters', hwriters]
    · rw [hloop', hloop]
    · rw [hreceived', hreceived, hdelivered before, List.append_assoc]

/-- A coroutine that runs while `state_` is `WS_CLOSED` leaves it so. -/
theorem runEffects_closed (app : App) (owner : Owner) (effects : List Effect) (q : Option ℕ)
    (h : c.state = .wsClosed) : (runEffects app owner effects q c).state = .wsClosed :=
  ((keeps_shutdown app c.shutdown).runEffects owner (fun _ _ => trivial) q ⟨h, rfl⟩).1

/-- **A coroutine** runs all its effects, or stops in one of its writes. -/
theorem ran_runEffects (app : App) (owner : Owner) (effects : List Effect) (q : Option ℕ)
    (c : Conn) : Ran owner effects c (runEffects app owner effects q c) := by
  induction effects generalizing q c with
  | nil =>
    refine .finished ?_ ?_ ?_ ?_
    · exact (sameQueue_finish owner c).writers
    · cases owner with
      | readLoop => rfl
      | task => rfl
    · cases owner with
      | readLoop => exact (List.append_nil _).symm
      | task => exact (List.append_nil _).symm
    · rintro ⟨code, reason, hmem⟩
      cases hmem
  | cons e effects ih =>
    cases e with
    | doWrite frame =>
      rw [runEffects]
      split_ifs with hw
      · refine (ih (some (c.push frame).queued.length) (c.push frame)).cons rfl rfl ?_ ?_
        · exact (List.append_nil _).symm
        · rintro ⟨code, reason, heq⟩
          cases heq
      · exact .suspended [] frame effects _ rfl rfl rfl rfl rfl (List.append_nil _).symm
    | onMessage msg =>
      apply (ih q (c.callback app (.onMessage msg))).cons
      · exact (sameQueue_callback app (.onMessage msg) c).writers
      · exact (readLoop_callback app (.onMessage msg) c).1
      · exact receivedMessages_callback app (.onMessage msg) c
      · rintro ⟨code, reason, heq⟩
        cases heq
    | onClose code reason =>
      apply (ih q (c.callback app (.onClose code reason))).cons
      · exact (sameQueue_callback app (.onClose code reason) c).writers
      · exact (readLoop_callback app (.onClose code reason) c).1
      · exact receivedMessages_callback app (.onClose code reason) c
      · rintro ⟨code', reason', heq⟩
        cases heq
    | close code reason =>
      have hsame := sameLoop_close app q code reason c
      apply (ih q (c.close app q code reason)).cons
      · exact (sameQueue_close app q code reason c).writers
      · exact hsame.readLoop
      · rw [hsame.received]
        exact (List.append_nil _).symm
      · intro _
        exact runEffects_closed app owner effects q (close_state q code reason)

/-- One coroutine at most is inside the writing loop. -/
def Queueing (c : Conn) : Prop :=
  ∃ handed, Outgoing.Fifo { conn := c, handed }

theorem Queueing.empty : Queueing {} :=
  ⟨[], Outgoing.fifo_empty⟩

theorem Queueing.step {e : Event} (h : c.Queueing) (hstep : step app c e = some c') :
    c'.Queueing := by
  obtain ⟨handed, h⟩ := h
  have hmap : Outgoing.step app { conn := c, handed } e = some {
      conn := c'
      handed := handed ++ (c'.writers.drop (Outgoing.outstanding c e)).map Writer.buf } := by
    unfold Outgoing.step
    rw [hstep]
    rfl
  exact ⟨_, Outgoing.fifo_step h hmap⟩

theorem Queueing.writing (h : c.Queueing) {k : ℕ} {w : Writer} (hw : c.writers[k]? = some w) :
    c.writers = [w] ∧ c.writers.eraseIdx k = [] := by
  obtain ⟨handed, h⟩ := h
  obtain ⟨-, hone, hrest, -⟩ := h.writing hw
  exact ⟨hone, hrest⟩

/-- A coroutine that enters the writing loop is alone there. -/
theorem Queueing.entered (h : c'.Queueing) {w : Writer} (hw : c'.writers = c.writers ++ [w]) :
    c.writers = [] := by
  have hlast : c'.writers[c.writers.length]? = some w := by
    rw [hw, List.getElem?_append_right (Nat.le_refl _), Nat.sub_self]
    rfl
  have hone := (h.writing hlast).1
  rw [hw] at hone
  exact (List.append_eq_singleton_iff.mp hone).elim And.left fun hno => nomatch hno.2

theorem delivered_taskEffects (c : Conn) (t : Task) : delivered (c.taskEffects t) = [] := by
  have hnone : ∀ e ∈ c.taskEffects t, delivered [e] = [] := by
    refine forall_taskEffects c ?_ ?_ t
    · intro code reason e he
      rcases List.mem_cons.mp he with rfl | hlast
      · rfl
      · rw [List.mem_singleton.mp hlast]
        rfl
    · intro opcode payload _
      rfl
  generalize c.taskEffects t = effects at hnone
  induction effects with
  | nil => rfl
  | cons e effects ih =>
    obtain ⟨he, hrest⟩ := List.forall_mem_cons.mp hnone
    rw [← List.singleton_append, delivered_append, he, ih hrest]
    rfl

/-- The coroutines inside the writing loop are tasks, which deliver nothing. -/
def TasksWriting (c : Conn) : Prop :=
  ∀ w ∈ c.writers, w.owner = .task ∧ delivered w.rest = []

theorem TasksWriting.of_nil (h : c.writers = []) : c.TasksWriting := by
  intro w hw
  rw [h] at hw
  cases hw

theorem TasksWriting.of_singleton {w : Writer} (h : c.writers = [w]) (howner : w.owner = .task)
    (hrest : delivered w.rest = []) : c.TasksWriting := by
  intro w' hw'
  rw [h] at hw'
  rw [List.mem_singleton.mp hw']
  exact ⟨howner, hrest⟩

theorem TasksWriting.of_eq (h : c.TasksWriting) (heq : c'.writers = c.writers) :
    c'.TasksWriting := by
  unfold TasksWriting
  rw [heq]
  exact h

end Conn

/-! ### The read loop -/

namespace ReadStream

variable {app : App} {s : Bytes} {r r' : ReadStream} {c' : Conn}

/-- The effects of a Close frame, or those that are left of them. -/
def Closing (effects : List Effect) : Prop :=
  ∃ code reason, effects = [.close code reason] ∨
    ∃ frame, effects = [.doWrite frame, .close code reason]

theorem Closing.close_mem {effects : List Effect} (h : Closing effects) :
    ∃ code reason, Effect.close code reason ∈ effects := by
  obtain ⟨code, reason, rfl | ⟨frame, rfl⟩⟩ := h
  · exact ⟨code, reason, List.mem_singleton_self _⟩
  · exact ⟨code, reason, List.mem_cons_of_mem _ (List.mem_singleton_self _)⟩

/-- What is left when the coroutine is suspended. -/
theorem Closing.rest {before rest : List Effect} {frame : Bytes}
    (h : Closing (before ++ .doWrite frame :: rest)) : Closing rest := by
  obtain ⟨code, reason, heq | ⟨frame', heq⟩⟩ := h
  · cases before with
    | nil => cases heq
    | cons e before =>
      exact absurd (List.cons.inj heq).2 (List.append_ne_nil_of_right_ne_nil _ nofun)
  · cases before with
    | nil =>
      obtain ⟨-, rfl⟩ := List.cons.inj heq
      exact ⟨code, reason, Or.inl rfl⟩
    | cons e before =>
      obtain ⟨-, htail⟩ := List.cons.inj heq
      cases before with
      | nil => cases htail
      | cons e' before =>
        exact absurd (List.cons.inj htail).2 (List.append_ne_nil_of_right_ne_nil _ nofun)

/-- **Where the read loop is** in the frames of the stream: `seen` have been handled. -/
inductive Reads (app : App) (s : Bytes) (r : ReadStream) : Prop
  /-- It has not begun. -/
  | unstarted (hloop : r.conn.readLoop = .notStarted)
      (hframes : framesOf s = framesOf r.unread)
      (hfb : r.conn.fb = FrameBody.ofMaxSize maxMsgSize)
      (hreceived : receivedMessages r.conn.trace = [])
      (hwriting : r.conn.TasksWriting)
  /-- It waits for the next frame, or has just read it. -/
  | between (seen : List WsFrame) (got : Option WsFrame)
      (hloop : r.conn.readLoop = got.elim .reading .got)
      (hframes : framesOf s = seen ++ got.toList ++ framesOf r.unread)
      (hopen : ∀ f ∈ seen, f.closes = false)
      (hfb : r.conn.fb = bodyAfter app.handlers seen)
      (hreceived : receivedMessages r.conn.trace = delivered (framesEffects app.handlers seen))
      (hwriting : r.conn.TasksWriting)
  /-- It handles a frame, and its coroutine is inside the writing loop. -/
  | inside (seen : List WsFrame) (f : WsFrame) (w : Writer)
      (hloop : r.conn.readLoop = .handling)
      (hframes : framesOf s = seen ++ [f] ++ framesOf r.unread)
      (hopen : ∀ g ∈ seen, g.closes = false)
      (hfb : r.conn.fb = bodyAfter app.handlers (seen ++ [f]))
      (hreceived : receivedMessages r.conn.trace ++ delivered w.rest
        = delivered (framesEffects app.handlers (seen ++ [f])))
      (hclosing : f.closes = true → Closing w.rest)
      (hwriters : r.conn.writers = [w]) (howner : w.owner = .readLoop)
  /-- It has ended. -/
  | ended (seen : List WsFrame)
      (hloop : r.conn.readLoop = .returned ∨ r.conn.readLoop = .threw)
      (hfront : seen <+: framesOf s)
      (hopen : ∀ f ∈ seen, f.closes = false)
      (hreceived : receivedMessages r.conn.trace
        <+: delivered (framesEffects app.handlers seen))
      (hwriting : r.conn.TasksWriting)

theorem closing_handleParsedFrame {handlers : WsHandlers} {f : WsFrame} (fb : FrameBody)
    (h : f.closes = true) : Closing (handleParsedFrame handlers f fb).2 := by
  unfold WsFrame.closes at h
  rw [Bool.and_eq_true, beq_iff_eq] at h
  obtain ⟨frame, code, reason, heq⟩ := Conn.handleParsedFrame_close handlers fb h
  exact ⟨code, reason, Or.inr ⟨frame, heq⟩⟩

theorem Closing.delivered {effects : List Effect} (h : Closing effects) :
    delivered effects = [] := by
  obtain ⟨code, reason, rfl | ⟨frame, rfl⟩⟩ := h
  · rfl
  · rfl

/-- A Close frame delivers nothing. -/
theorem delivered_closing {handlers : WsHandlers} {seen : List WsFrame} {f : WsFrame}
    (h : f.closes = true) : delivered (framesEffects handlers (seen ++ [f]))
      = delivered (framesEffects handlers seen) := by
  rw [framesEffects_concat, delivered_append, effectsAt,
    (closing_handleParsedFrame (bodyAfter handlers seen) h).delivered, List.append_nil]

/-- What has been received is on the way to what the stream determines. -/
theorem Reads.received (h : Reads app s r) :
    receivedMessages r.conn.trace <+: messagesOf app.handlers s := by
  have hfront {seen : List WsFrame} (hfront : seen <+: framesOf s)
      (hopen : ∀ f ∈ seen, f.closes = false) :
      delivered (framesEffects app.handlers seen) <+: messagesOf app.handlers s :=
    delivered_framesEffects_prefix app.handlers (prefix_beforeClose hfront hopen)
  cases h with
  | unstarted hloop hframes hfb hreceived hwriting =>
    rw [hreceived]
    exact List.nil_prefix
  | between seen got hloop hframes hopen hfb hreceived hwriting =>
    rw [hreceived]
    apply hfront ?_ hopen
    rw [hframes, List.append_assoc]
    exact List.prefix_append _ _
  | inside seen f w hloop hframes hopen hfb hreceived hclosing hwriters howner =>
    apply (List.prefix_append _ (delivered w.rest)).trans
    rw [hreceived]
    cases hf : f.closes with
    | true =>
      rw [delivered_closing hf]
      apply hfront ?_ hopen
      rw [hframes, List.append_assoc]
      exact List.prefix_append _ _
    | false =>
      apply hfront
      · rw [hframes]
        exact List.prefix_append _ _
      · intro g hg
        rcases List.mem_append.mp hg with hold | hnew
        · exact hopen g hold
        · rw [List.mem_singleton.mp hnew]
          exact hf
  | ended seen hloop hseen hopen hreceived hwriting => exact hreceived.trans (hfront hseen hopen)

/-! ### One step -/

/-- The read loop does not notice the step. -/
theorem Reads.same (h : Reads app s r) (hsame : Conn.SameLoop r.conn c')
    (hwriters : c'.writers = r.conn.writers) : Reads app s { r with conn := c' } := by
  obtain ⟨hloop', hfb', hreceived'⟩ := hsame
  cases h with
  | unstarted hloop hframes hfb hreceived hwriting =>
    exact .unstarted (hloop'.trans hloop) hframes (hfb'.trans hfb) (hreceived'.trans hreceived)
      (hwriting.of_eq hwriters)
  | between seen got hloop hframes hopen hfb hreceived hwriting =>
    exact .between seen got (hloop'.trans hloop) hframes hopen (hfb'.trans hfb)
      (hreceived'.trans hreceived) (hwriting.of_eq hwriters)
  | inside seen f w hloop hframes hopen hfb hreceived hclosing hone howner =>
    refine .inside seen f w (hloop'.trans hloop) hframes hopen (hfb'.trans hfb) ?_ hclosing
      (hwriters.trans hone) howner
    show receivedMessages c'.trace ++ _ = _
    rw [hreceived', hreceived]
  | ended seen hloop hfront hopen hreceived hwriting =>
    refine .ended seen ?_ hfront hopen ?_ (hwriting.of_eq hwriters)
    · show c'.readLoop = _ ∨ c'.readLoop = _
      rw [hloop']
      exact hloop
    · show receivedMessages c'.trace <+: _
      rw [hreceived']
      exact hreceived

/-- A task takes the place of whoever was inside the writing loop. -/
theorem Reads.taskWriting (h : Reads app s r) (hsame : Conn.SameLoop r.conn c')
    (hwriting : c'.TasksWriting) (htask : ∀ w ∈ r.conn.writers, w.owner = .task) :
    Reads app s { r with conn := c' } := by
  obtain ⟨hloop', hfb', hreceived'⟩ := hsame
  cases h with
  | unstarted hloop hframes hfb hreceived _ =>
    exact .unstarted (hloop'.trans hloop) hframes (hfb'.trans hfb) (hreceived'.trans hreceived)
      hwriting
  | between seen got hloop hframes hopen hfb hreceived _ =>
    exact .between seen got (hloop'.trans hloop) hframes hopen (hfb'.trans hfb)
      (hreceived'.trans hreceived) hwriting
  | inside seen f w hloop hframes hopen hfb hreceived hclosing hone howner =>
    have htaskOwner := htask w (hone ▸ List.mem_singleton_self w)
    rw [howner] at htaskOwner
    cases htaskOwner
  | ended seen hloop hfront hopen hreceived _ =>
    refine .ended seen ?_ hfront hopen ?_ hwriting
    · show c'.readLoop = _ ∨ c'.readLoop = _
      rw [hloop']
      exact hloop
    · show receivedMessages c'.trace <+: _
      rw [hreceived']
      exact hreceived

/-- A task of the strand runs. -/
theorem Reads.ranTask (h : Reads app s r) {effects : List Effect} {c : Conn}
    (hran : Conn.Ran .task effects c c') (hsame : Conn.SameLoop r.conn c)
    (hwriters : c.writers = r.conn.writers) (hfb : c'.fb = c.fb) (hnone : delivered effects = [])
    (hqueue : c'.Queueing) : Reads app s { r with conn := c' } := by
  cases hran with
  | finished hwriters' hloop hreceived hclosed =>
    rw [hnone, List.append_nil] at hreceived
    exact h.same (hsame.trans ⟨hloop, hfb, hreceived⟩) (hwriters'.trans hwriters)
  | suspended before frame rest w heffects hwriters' howner hrest hloop hreceived =>
    rw [heffects, ← List.singleton_append, delivered_append, delivered_append] at hnone
    obtain ⟨hbefore, hnone⟩ := List.append_eq_nil_iff.mp hnone
    rw [hbefore, List.append_nil] at hreceived
    have hempty : c.writers = [] := hqueue.entered hwriters'
    apply h.taskWriting (hsame.trans ⟨hloop, hfb, hreceived⟩)
    · rw [hempty, List.nil_append] at hwriters'
      exact .of_singleton hwriters' howner (hrest ▸ (List.append_eq_nil_iff.mp hnone).2)
    · rw [← hwriters, hempty]
      exact fun w hw => absurd hw List.not_mem_nil

/-- The read loop goes on with a frame, from its beginning or from one of its writes. -/
theorem reads_of_ran {seen : List WsFrame} {f : WsFrame} {effects : List Effect} {c : Conn}
    (hran : Conn.Ran .readLoop effects c c')
    (hframes : framesOf s = seen ++ [f] ++ framesOf r.unread)
    (hopen : ∀ g ∈ seen, g.closes = false)
    (hfb : c'.fb = bodyAfter app.handlers (seen ++ [f]))
    (hreceived : receivedMessages c.trace ++ delivered effects
      = delivered (framesEffects app.handlers (seen ++ [f])))
    (hclosing : f.closes = true → Closing effects)
    (hwriting : c.TasksWriting) (hqueue : c'.Queueing) : Reads app s { r with conn := c' } := by
  have hopen' (hf : f.closes = false) : ∀ g ∈ seen ++ [f], g.closes = false := by
    intro g hg
    rcases List.mem_append.mp hg with hold | hnew
    · exact hopen g hold
    · rw [List.mem_singleton.mp hnew]
      exact hf
  cases hran with
  | finished hwriters hloop hreceived' hclosed =>
    rw [if_pos rfl] at hloop
    rw [hreceived] at hreceived'
    cases hf : f.closes with
    | true =>
      rw [if_neg (by rw [hclosed (hclosing hf).close_mem]; exact nofun)] at hloop
      refine .ended seen (Or.inl hloop) ?_ hopen ?_ (hwriting.of_eq hwriters)
      · rw [hframes, List.append_assoc]
        exact List.prefix_append _ _
      · show receivedMessages c'.trace <+: _
        rw [hreceived', delivered_closing hf]
    | false =>
      split_ifs at hloop with hstate
      · refine .between (seen ++ [f]) none hloop ?_ (hopen' hf) hfb hreceived'
          (hwriting.of_eq hwriters)
        rw [hframes, Option.toList_none, List.append_nil]
      · refine .ended (seen ++ [f]) (Or.inl hloop) ?_ (hopen' hf) ?_ (hwriting.of_eq hwriters)
        · rw [hframes]
          exact List.prefix_append _ _
        · show receivedMessages c'.trace <+: _
          rw [hreceived']
  | suspended before frame rest w heffects hwriters howner hrest hloop hreceived' =>
    refine .inside seen f w hloop hframes hopen hfb ?_ ?_ ?_ howner
    · rw [hreceived', List.append_assoc, hrest, ← hreceived, heffects, ← List.singleton_append,
        delivered_append, delivered_append]
      rfl
    · intro hf
      have hall := hclosing hf
      rw [heffects] at hall
      rw [hrest]
      exact hall.rest
    · show c'.writers = [w]
      rw [hwriters, hqueue.entered hwriters, List.nil_append]

/-- A write completes, and its coroutine was the last one with a buffer. -/
theorem Reads.writeLast (h : Reads app s r) {k : ℕ} {w : Writer} {c : Conn}
    (hw : r.conn.writers[k]? = some w) (hqueue : r.conn.Queueing)
    (hsame : Conn.SameLoop r.conn c) (hwriters : c.writers = r.conn.writers.eraseIdx k)
    (hran : Conn.Ran w.owner w.rest c c') (hfb : c'.fb = c.fb) (hqueue' : c'.Queueing) :
    Reads app s { r with conn := c' } := by
  obtain ⟨hone, hempty⟩ := hqueue.writing hw
  rw [hempty] at hwriters
  have hmem : w ∈ r.conn.writers := List.mem_of_getElem? hw
  have hc : Reads app s { r with conn := c } ∨ w.owner = .readLoop := by
    cases howner : w.owner with
    | readLoop => exact Or.inr rfl
    | task =>
      refine Or.inl (h.taskWriting hsame (.of_nil hwriters) ?_)
      intro w' hw'
      rw [hone] at hw'
      rw [List.mem_singleton.mp hw']
      exact howner
  cases h with
  | unstarted hloop hframes hfb' hreceived hwriting =>
    obtain ⟨howner, hnone⟩ := hwriting w hmem
    rw [howner] at hran hc
    exact (hc.resolve_right nofun).ranTask hran (Conn.SameLoop.refl c) rfl hfb hnone hqueue'
  | between seen got hloop hframes hopen hfb' hreceived hwriting =>
    obtain ⟨howner, hnone⟩ := hwriting w hmem
    rw [howner] at hran hc
    exact (hc.resolve_right nofun).ranTask hran (Conn.SameLoop.refl c) rfl hfb hnone hqueue'
  | ended seen hloop hfront hopen hreceived hwriting =>
    obtain ⟨howner, hnone⟩ := hwriting w hmem
    rw [howner] at hran hc
    exact (hc.resolve_right nofun).ranTask hran (Conn.SameLoop.refl c) rfl hfb hnone hqueue'
  | inside seen f w' hloop hframes hopen hfb' hreceived hclosing hone' howner =>
    rw [hone'] at hmem
    obtain rfl := List.mem_singleton.mp hmem
    rw [howner] at hran
    apply reads_of_ran hran hframes hopen ?_ ?_ hclosing (.of_nil hwriters) hqueue'
    · rw [hfb, hsame.fb, hfb']
    · rw [hsame.received, hreceived]

/-- A write completes, and its coroutine takes the next buffer. -/
theorem Reads.writeNext (h : Reads app s r) {k : ℕ} {w : Writer} {buf : Bytes}
    (hw : r.conn.writers[k]? = some w) (hqueue : r.conn.Queueing)
    (hsame : Conn.SameLoop r.conn c')
    (hwriters : c'.writers = r.conn.writers.eraseIdx k ++ [{ w with buf }]) :
    Reads app s { r with conn := c' } := by
  obtain ⟨hone, hempty⟩ := hqueue.writing hw
  rw [hempty, List.nil_append] at hwriters
  have hmem : w ∈ r.conn.writers := List.mem_of_getElem? hw
  have htask (hwriting : r.conn.TasksWriting) : Reads app s { r with conn := c' } := by
    apply h.taskWriting hsame
    · exact .of_singleton hwriters (hwriting w hmem).1 (hwriting w hmem).2
    · exact fun w' hw' => (hwriting w' hw').1
  cases h with
  | unstarted hloop hframes hfb hreceived hwriting => exact htask hwriting
  | between seen got hloop hframes hopen hfb hreceived hwriting => exact htask hwriting
  | ended seen hloop hfront hopen hreceived hwriting => exact htask hwriting
  | inside seen f w' hloop hframes hopen hfb hreceived hclosing hone' howner =>
    rw [hone'] at hmem
    obtain rfl := List.mem_singleton.mp hmem
    refine .inside seen f { w with buf } (hsame.readLoop.trans hloop) hframes hopen
      (hsame.fb.trans hfb) ?_ hclosing hwriters howner
    show receivedMessages c'.trace ++ _ = _
    rw [hsame.received]
    exact hreceived

/-- A write fails, and ends its coroutine. -/
theorem Reads.writeFail (h : Reads app s r) {k : ℕ} {w : Writer}
    (hw : r.conn.writers[k]? = some w) (hqueue : r.conn.Queueing) :
    Reads app s { r with conn := { r.conn with
      writers := r.conn.writers.eraseIdx k
      readLoop := if w.owner = .readLoop then .threw else r.conn.readLoop } } := by
  obtain ⟨hone, hempty⟩ := hqueue.writing hw
  have hmem : w ∈ r.conn.writers := List.mem_of_getElem? hw
  have htask (hwriting : r.conn.TasksWriting) : Reads app s { r with conn := { r.conn with
      writers := r.conn.writers.eraseIdx k
      readLoop := if w.owner = .readLoop then .threw else r.conn.readLoop } } := by
    apply h.taskWriting
    · rw [(hwriting w hmem).1]
      exact ⟨rfl, rfl, rfl⟩
    · exact .of_nil hempty
    · exact fun w' hw' => (hwriting w' hw').1
  cases h with
  | unstarted hloop hframes hfb hreceived hwriting => exact htask hwriting
  | between seen got hloop hframes hopen hfb hreceived hwriting => exact htask hwriting
  | ended seen hloop hfront hopen hreceived hwriting => exact htask hwriting
  | inside seen f w' hloop hframes hopen hfb hreceived hclosing hone' howner =>
    rw [hone'] at hmem
    obtain rfl := List.mem_singleton.mp hmem
    have hthrew : (if w.owner = .readLoop then ReadLoop.threw else r.conn.readLoop) = .threw :=
      if_pos howner
    have hreceived' : receivedMessages r.conn.trace
        <+: delivered (framesEffects app.handlers (seen ++ [f])) :=
      ⟨delivered w.rest, hreceived⟩
    cases hf : f.closes with
    | true =>
      rw [delivered_closing hf] at hreceived'
      refine .ended seen (Or.inr hthrew) ?_ hopen hreceived' (.of_nil hempty)
      rw [hframes, List.append_assoc]
      exact List.prefix_append _ _
    | false =>
      refine .ended (seen ++ [f]) (Or.inr hthrew) ?_ ?_ hreceived' (.of_nil hempty)
      · rw [hframes]
        exact List.prefix_append _ _
      · intro g hg
        rcases List.mem_append.mp hg with hold | hnew
        · exact hopen g hold
        · rw [List.mem_singleton.mp hnew]
          exact hf

/-- The read loop begins, or finds the connection closed. -/
theorem Reads.start (hnot : r.conn.readLoop = .notStarted) (h : Reads app s r) :
    Reads app s { r with conn := r.conn.start app } := by
  cases h with
  | unstarted hloop hframes hfb hreceived hwriting =>
    have hreceived' : receivedMessages (r.conn.start app).trace = [] := by
      unfold Conn.start
      split_ifs
      · exact (Conn.receivedMessages_callback app .onOpen r.conn).trans (by rw [hreceived]; rfl)
      · exact hreceived
    have hfb' : (r.conn.start app).fb = FrameBody.ofMaxSize maxMsgSize :=
      (Conn.keeps_fb app (fun fb => fb = FrameBody.ofMaxSize maxMsgSize)).start (fun _ => hfb)
        fun _ => hfb
    have hwriting' : (r.conn.start app).TasksWriting :=
      hwriting.of_eq (Conn.sameQueue_start app r.conn).writers
    -- the loop ends at once if `close` has run before `start`, or runs inside `on_open`
    rcases Conn.readLoop_start app r.conn with hreading | hreturned
    · exact .between [] none hreading hframes (fun _ hf => absurd hf List.not_mem_nil) hfb'
        hreceived' hwriting'
    · refine .ended [] (Or.inl hreturned) List.nil_prefix (fun _ hf => absurd hf List.not_mem_nil)
        ?_ hwriting'
      rw [hreceived']
      exact List.nil_prefix
  | between seen got hloop hframes hopen hfb hreceived hwriting =>
    rw [hnot] at hloop
    cases got with
    | none => cases hloop
    | some f => cases hloop
  | inside seen f w hloop hframes hopen hfb hreceived hclosing hone howner =>
    rw [hnot] at hloop
    cases hloop
  | ended seen hloop hfront hopen hreceived hwriting =>
    rw [hnot] at hloop
    rcases hloop with hno | hno
    · cases hno
    · cases hno

/-- **Every event of the connection**, a frame that is read apart. -/
theorem Reads.conn_step (h : Reads app s r) (hqueue : r.conn.Queueing) {e : Conn.Event}
    (hne : ∀ f, e ≠ .recv f) (hstep : r.conn.step app e = some c') :
    Reads app s { r with conn := c' } := by
  have hqueue' : c'.Queueing := hqueue.step hstep
  have hfb {c : Conn} (owner : Owner) (effects : List Effect) (q : Option ℕ) :
      (Conn.runEffects app owner effects q c).fb = c.fb :=
    (Conn.keeps_fb app (fun fb => fb = c.fb)).runEffects owner (fun _ _ => trivial) q rfl
  cases Conn.stepped_of_step hstep with
  | start hnot => exact h.start hnot
  | call k =>
    exact h.same (Conn.sameLoop_call app k r.conn) (Conn.sameQueue_call app k r.conn).writers
  | recv f hreading hopen => exact absurd rfl (hne f)
  | readError hreading =>
    cases h with
    | unstarted hloop hframes hfb' hreceived hwriting =>
      rw [hreading] at hloop
      cases hloop
    | between seen got hloop hframes hopen hfb' hreceived hwriting =>
      refine .ended seen (Or.inr rfl) ?_ hopen ?_ hwriting
      · rw [hframes, List.append_assoc]
        exact List.prefix_append _ _
      · show receivedMessages r.conn.trace <+: _
        rw [hreceived]
    | inside seen f w hloop hframes hopen hfb' hreceived hclosing hone howner =>
      rw [hreading] at hloop
      cases hloop
    | ended seen hloop hfront hopen hreceived hwriting =>
      exact .ended seen (Or.inr rfl) hfront hopen hreceived hwriting
  | resume f hgot =>
    cases h with
    | unstarted hloop hframes hfb' hreceived hwriting =>
      rw [hgot] at hloop
      cases hloop
    | between seen got hloop hframes hopen hfb' hreceived hwriting =>
      rw [hgot] at hloop
      cases got with
      | none => cases hloop
      | some f' =>
        obtain rfl : f = f' := ReadLoop.got.inj hloop
        have hran := Conn.ran_runEffects app .readLoop
          (handleParsedFrame app.handlers f r.conn.fb).2 none
          { r.conn with fb := (handleParsedFrame app.handlers f r.conn.fb).1 }
        apply reads_of_ran hran hframes hopen ?_ ?_ ?_ hwriting hqueue'
        · rw [hfb, bodyAfter_concat, hfb']
        · show receivedMessages r.conn.trace ++ _ = _
          rw [framesEffects_concat, delivered_append, effectsAt, hreceived, hfb']
        · exact closing_handleParsedFrame r.conn.fb
    | inside seen f' w hloop hframes hopen hfb' hreceived hclosing hone howner =>
      rw [hgot] at hloop
      cases hloop
    | ended seen hloop hfront hopen hreceived hwriting =>
      rw [hgot] at hloop
      rcases hloop with hno | hno
      · cases hno
      · cases hno
  | runTask t tasks htasks =>
    exact h.ranTask (Conn.ran_runEffects app .task (r.conn.taskEffects t) none
      { r.conn with tasks }) ⟨rfl, rfl, rfl⟩ rfl (hfb _ _ _)
      (Conn.delivered_taskEffects r.conn t) hqueue'
  | writeLast k w hw hq =>
    refine h.writeLast hw hqueue ?_ ?_
      (Conn.ran_runEffects app w.owner w.rest (some w.queuedAt) _) (hfb _ _ _) hqueue'
    · exact ⟨rfl, rfl, rfl⟩
    · rfl
  | writeNext k w buf queue hw hq => exact h.writeNext hw hqueue ⟨rfl, rfl, rfl⟩ rfl
  | writeFail k w hw => exact h.writeFail hw hqueue

/-- **Every step** of the stream. -/
theorem reads_step {e : Event} (h : Reads app s r ∧ r.conn.Queueing)
    (hstep : r.step app e = some r') : Reads app s r' ∧ r'.conn.Queueing := by
  obtain ⟨h, hqueue⟩ := h
  cases e with
  | header =>
    unfold step at hstep
    dsimp only at hstep
    split_ifs at hstep
    obtain ⟨len, -, rfl⟩ := Option.map_eq_some_iff.mp hstep
    refine ⟨?_, hqueue⟩
    cases h with
    | unstarted hloop hframes hfb hreceived hwriting =>
      exact .unstarted hloop hframes hfb hreceived hwriting
    | between seen got hloop hframes hopen hfb hreceived hwriting =>
      exact .between seen got hloop hframes hopen hfb hreceived hwriting
    | inside seen f w hloop hframes hopen hfb hreceived hclosing hone howner =>
      exact .inside seen f w hloop hframes hopen hfb hreceived hclosing hone howner
    | ended seen hloop hfront hopen hreceived hwriting =>
      exact .ended seen hloop hfront hopen hreceived hwriting
  | payload =>
    unfold step at hstep
    dsimp only at hstep
    split_ifs at hstep
    obtain ⟨⟨f, t⟩, hdecode, hstep⟩ := Option.bind_eq_some_iff.mp hstep
    obtain ⟨conn, hconn, hstep⟩ := Option.bind_eq_some_iff.mp hstep
    obtain rfl := Option.some.inj hstep
    refine ⟨?_, hqueue.step hconn⟩
    cases Conn.stepped_of_step hconn with
    | recv f hreading _ =>
      cases h with
      | unstarted hloop hframes hfb hreceived hwriting =>
        rw [hreading] at hloop
        cases hloop
      | between seen got hloop hframes hopen hfb hreceived hwriting =>
        cases got with
        | some f' =>
          rw [hreading] at hloop
          cases hloop
        | none =>
          refine .between seen (some f) rfl ?_ hopen hfb hreceived hwriting
          have hfirst : framesOf r.unread = f :: framesOf t :=
            Decoder.all_of_some proper_decodeFrame hdecode
          rw [hframes, hfirst, Option.toList_none, List.append_nil, Option.toList_some,
            List.append_assoc]
          rfl
      | inside seen f' w hloop hframes hopen hfb hreceived hclosing hone howner =>
        rw [hreading] at hloop
        cases hloop
      | ended seen hloop hfront hopen hreceived hwriting =>
        rw [hreading] at hloop
        rcases hloop with hno | hno
        · cases hno
        · cases hno
  | conn e =>
    obtain ⟨conn, hne, hconn, rfl⟩ := step_conn_eq_some hstep
    exact ⟨h.conn_step hqueue hne hconn, hqueue.step hconn⟩

/-! ### Every run -/

theorem reads_unstarted (app : App) (s : Bytes) : Reads app s { unread := s } :=
  .unstarted rfl rfl rfl rfl (.of_nil rfl)

theorem reads_run (app : App) (s : Bytes) {es : List Event}
    (hrun : run (step app) { unread := s } es = some r) : Reads app s r :=
  (run_invariant reads_step ⟨reads_unstarted app s, Conn.Queueing.empty⟩ hrun).1

/-- What a read loop that waits for more has handled. -/
theorem Reads.all_seen (h : Reads app s r) (hreading : r.conn.readLoop = .reading)
    (hnone : decodeFrame r.unread = none) : (∀ f ∈ framesOf s, f.closes = false) ∧
      receivedMessages r.conn.trace = delivered (framesEffects app.handlers (framesOf s)) := by
  cases h with
  | unstarted hloop hframes hfb hreceived hwriting =>
    rw [hreading] at hloop
    cases hloop
  | between seen got hloop hframes hopen hfb hreceived hwriting =>
    cases got with
    | some f =>
      rw [hreading] at hloop
      cases hloop
    | none =>
      have hall : framesOf s = seen := by
        rw [hframes, framesOf, Decoder.all_of_none hnone, Option.toList_none]
        simp
      rw [hall]
      exact ⟨hopen, hreceived⟩
  | inside seen f w hloop hframes hopen hfb hreceived hclosing hone howner =>
    rw [hreading] at hloop
    cases hloop
  | ended seen hloop hfront hopen hreceived hwriting =>
    rw [hreading] at hloop
    rcases hloop with hno | hno
    · cases hno
    · cases hno

/-- When the read loop waits for a frame that has not arrived, it has received all. -/
theorem Reads.all (h : Reads app s r) (hreading : r.conn.readLoop = .reading)
    (hnone : decodeFrame r.unread = none) :
    receivedMessages r.conn.trace = messagesOf app.handlers s := by
  obtain ⟨hopen, hreceived⟩ := h.all_seen hreading hnone
  rw [hreceived, messagesOf, beforeClose_of_open hopen]

/-- A frame that the read loop has read is one of the stream. -/
theorem Reads.got_mem (h : Reads app s r) {f : WsFrame} (hgot : r.conn.readLoop = .got f) :
    f ∈ framesOf s := by
  cases h with
  | unstarted hloop hframes hfb hreceived hwriting =>
    rw [hgot] at hloop
    cases hloop
  | between seen got hloop hframes hopen hfb hreceived hwriting =>
    rw [hgot] at hloop
    cases got with
    | none => cases hloop
    | some f' =>
      obtain rfl : f = f' := ReadLoop.got.inj hloop
      rw [hframes, Option.toList_some]
      exact List.mem_append_left _ (List.mem_append_right _ (List.mem_singleton_self f))
  | inside seen f' w hloop hframes hopen hfb hreceived hclosing hone howner =>
    rw [hgot] at hloop
    cases hloop
  | ended seen hloop hfront hopen hreceived hwriting =>
    rw [hgot] at hloop
    rcases hloop with hno | hno
    · cases hno
    · cases hno

/-- **What the application receives depends on the peer's bytes alone**: the first of the messages
that they determine, whatever the application, the other callers and the socket do and in whatever
order; and all of them when the read loop waits for a frame that has not arrived. -/
theorem received_of_run (app : App) (s : Bytes) (es : List Event) {r : ReadStream}
    (hrun : run (step app) { unread := s } es = some r) :
    receivedMessages r.conn.trace <+: messagesOf app.handlers s ∧
      (r.conn.readLoop = .reading → decodeFrame r.unread = none →
        receivedMessages r.conn.trace = messagesOf app.handlers s) := by
  have h := reads_run app s hrun
  exact ⟨h.received, h.all⟩

/-- Two messages and a Close frame. -/
def twoMessages : Bytes :=
  [0x81, 0x02, 0x68, 0x69, 0x82, 0x01, 0x07, 0x88, 0x00]

/-- The application has received the first of them when another coroutine closes the connection. -/
def oneReceived : ReadStream where
  conn := {
    state := .wsClosed
    readLoop := .reading
    fb := { maxSize := maxMsgSize, reserved := 2 }
    cleanedUp := true
    trace := [.onMessage (bytes "hi")]
    shutdown := some { closeQueuedAt := none, queued := [], written := [] } }
  unread := [0x82, 0x01, 0x07, 0x88, 0x00]
  headerRead := true
  resized := 1

theorem received_of_run_oneReceived :
    receivedMessages oneReceived.conn.trace <+: messagesOf { onMessage := true } twoMessages ∧
      (oneReceived.conn.readLoop = .reading → decodeFrame oneReceived.unread = none →
        receivedMessages oneReceived.conn.trace = messagesOf { onMessage := true } twoMessages) :=
  received_of_run { handlers := { onMessage := true } } twoMessages
    [.conn .start, .header, .payload, .conn .resume, .header, .conn (.call (.close 1001 []))]
    (by decide : _ = some oneReceived)

end ReadStream

end WebSocketsLib
