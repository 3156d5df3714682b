import WebSocketsLib.Lib.Runs
import WebSocketsLib.WebSocket.Equiv.Connection
import Mathlib.Tactic.Common

/-!
# The order of the callbacks

`on_open` comes first, then messages, then at most one `on_close` (`CallbackOrder`).
`callbackOrder_of_guarded`: this holds in every run in which nothing closes the connection before
`start`, no frame takes one of the branches that call `on_close` directly, and no frame that ends a
message is handled after `close`.

The invariant (`Conn.Ordered`) ties the trace to `state_`: while it is `WS_OPEN`, `on_close` has not
been called.  A direct call of `on_close` breaks it, since it leaves the state as it is.  Before
`start` the trace is empty (`Conn.Unopened`), unless `on_open` is not installed.
-/

namespace WebSocketsLib

open Runs

/-- The frames of the branches of `handle_parsed_frame` that call `on_close` directly. -/
def Offends (fb : FrameBody) (f : WsFrame) : Prop :=
  (f.opcode = wsPing ∨ f.opcode = wsPong ∨ f.opcode = wsClose) ∧ f.fin = false ∨
    (f.opcode = wsText ∨ f.opcode = wsBinary) ∧
      (fb.assembling = true ∨ fb.reset.wouldExceed f.payloadData.length = true) ∨
    f.opcode = wsCont ∧ (fb.assembling = false ∨ fb.wouldExceed f.payloadData.length = true)

/-- A frame that ends a message. -/
def WsFrame.EndsData (f : WsFrame) : Prop :=
  f.fin = true ∧ (f.opcode = wsText ∨ f.opcode = wsBinary ∨ f.opcode = wsCont)

instance (fb : FrameBody) (f : WsFrame) : Decidable (Offends fb f) := by
  unfold Offends
  infer_instance

instance (f : WsFrame) : Decidable f.EndsData := by
  unfold WsFrame.EndsData
  infer_instance

/-- An effect that cannot bring the callbacks out of order, whatever has been called before. -/
def Effect.Orderly (handlers : WsHandlers) : Effect → Prop
  | .doWrite _ => True
  | .onMessage _ => handlers.onClose = false
  | .onClose _ _ => False
  | .close _ _ => True

/-- One message, if `on_message` is installed. -/
def DeliversOne (handlers : WsHandlers) (effects : List Effect) : Prop :=
  ∃ m, effects = if handlers.onMessage then [.onMessage m] else []

/-- An effect of a task that calls nothing. -/
def Effect.Silent (handlers : WsHandlers) : Effect → Prop
  | .doWrite _ => True
  | .onMessage _ => False
  | .onClose _ _ => False
  | .close _ _ => handlers.onClose = false

theorem Effect.Silent.orderly {handlers : WsHandlers} {e : Effect} (h : e.Silent handlers) :
    e.Orderly handlers := by
  cases e with
  | onMessage msg => exact h.elim
  | onClose code reason => exact h.elim
  | doWrite _ | close _ _ => trivial

/-! ### What a frame does -/

section

variable (handlers : WsHandlers) {f : WsFrame} {fb : FrameBody}

theorem orderly_nil : ∀ e ∈ ([] : List Effect), e.Orderly handlers :=
  fun _ he => nomatch he

theorem orderly_handlePingFrame (payload : Bytes) :
    ∀ e ∈ handlePingFrame payload, e.Orderly handlers := by
  intro e he
  rw [List.mem_singleton.mp he]
  trivial

/-- A Close frame and the `close` after it. -/
theorem orderly_gracefulClose (code : UInt16) (reason : Bytes) :
    ∀ e ∈ sendCloseWithReason code reason ++ [.close code reason], e.Orderly handlers := by
  intro e he
  unfold sendCloseWithReason at he
  simp only [List.cons_append, List.nil_append, List.mem_cons, List.not_mem_nil, or_false] at he
  rcases he with rfl | rfl
  · trivial
  · trivial

theorem orderly_handleCloseFrame (payload : Bytes) :
    ∀ e ∈ handleCloseFrame payload, e.Orderly handlers := by
  obtain ⟨code, reason, heq⟩ := handleCloseFrame_eq payload
  rw [heq]
  exact orderly_gracefulClose handlers code reason

theorem appendAndDeliver_orderly (h : fb.wouldExceed f.payloadData.length = false) :
    (∀ e ∈ (appendAndDeliver handlers f fb).2, e.Orderly handlers) ∨
      f.fin = true ∧ DeliversOne handlers (appendAndDeliver handlers f fb).2 := by
  rw [appendAndDeliver, FrameBody.append, if_neg (by rw [h]; decide)]
  cases f.fin with
  | false => exact Or.inl (orderly_nil handlers)
  | true => exact Or.inr ⟨rfl, _, rfl⟩

/-- A frame that does not offend writes and closes, or delivers one message. -/
theorem effects_of_not_offends (h : ¬ Offends fb f) :
    (∀ e ∈ (handleParsedFrame handlers f fb).2, e.Orderly handlers) ∨
      f.EndsData ∧ DeliversOne handlers (handleParsedFrame handlers f fb).2 := by
  simp only [Offends, not_or, not_and, Bool.not_eq_true, Bool.not_eq_false] at h
  obtain ⟨hcontrol, hdata, hcont⟩ := h
  -- branch by branch; the condition rules out the error report of each
  unfold handleParsedFrame
  by_cases hping : f.opcode = wsPing
  · rw [if_pos hping, hcontrol (Or.inl hping)]
    exact Or.inl (orderly_handlePingFrame handlers _)
  rw [if_neg hping]
  by_cases hpong : f.opcode = wsPong
  · rw [if_pos hpong, hcontrol (Or.inr (Or.inl hpong))]
    exact Or.inl (orderly_nil handlers)
  rw [if_neg hpong]
  by_cases hclose : f.opcode = wsClose
  · rw [if_pos hclose, hcontrol (Or.inr (Or.inr hclose))]
    exact Or.inl (orderly_handleCloseFrame handlers _)
  rw [if_neg hclose]
  by_cases htext : f.opcode = wsText ∨ f.opcode = wsBinary
  · obtain ⟨hasm, hexc⟩ := hdata htext
    -- `start` empties the buffer as `reset` does
    have hexc : (fb.start f.opcode f.payloadLength.toNat).wouldExceed f.payloadData.length
        = false := hexc
    rw [if_pos htext, if_neg (by rw [hasm]; decide)]
    refine (appendAndDeliver_orderly handlers hexc).imp_right fun ⟨hfin, hone⟩ => ⟨⟨hfin, ?_⟩, hone⟩
    exact htext.elim Or.inl fun hbinary => Or.inr (Or.inl hbinary)
  rw [if_neg htext]
  by_cases hop : f.opcode = wsCont
  · obtain ⟨hasm, hexc⟩ := hcont hop
    rw [if_pos hop, hasm]
    exact (appendAndDeliver_orderly handlers hexc).imp_right
      fun ⟨hfin, hone⟩ => ⟨⟨hfin, Or.inr (Or.inr hop)⟩, hone⟩
  · rw [if_neg hop]
    exact Or.inl (orderly_nil handlers)

theorem orderly_reportError (h : handlers.onClose = false) (code : UInt16) (reason : Bytes) :
    ∀ e ∈ reportError handlers code reason, e.Orderly handlers := by
  intro e he
  rw [reportError, h, sendCloseWithReason] at he
  rw [show e = _ from List.mem_singleton.mp he]
  trivial

/-- Without `on_close` no frame can bring the callbacks out of order. -/
theorem effects_of_no_onClose (h : handlers.onClose = false) :
    ∀ e ∈ (handleParsedFrame handlers f fb).2, e.Orderly handlers :=
  forall_handleParsedFrame (orderly_reportError handlers h) (fun _ => trivial)
    (fun _ => orderly_handleCloseFrame handlers _) fun _ _ => h

end

/-! ### The invariant -/

/-- The callbacks that come first. -/
def opening (app : App) : List Callback :=
  if app.handlers.onOpen then [.onOpen] else []

/-- `on_open`, then messages, then at most one `on_close`. -/
def CallbackOrder (app : App) (trace : List Callback) : Prop :=
  ∃ (msgs : List Bytes) (tail : List Callback), trace = opening app ++ msgs.map .onMessage ++ tail ∧
    (tail = [] ∨ ∃ code reason, tail = [.onClose code reason])

namespace Conn

variable {app : App} {c c' : Conn}

/-- The trace is in order, and `on_close` ends it only when the connection is closed. -/
def Ordered (app : App) (c : Conn) : Prop :=
  ∃ (msgs : List Bytes) (tail : List Callback),
    c.trace = opening app ++ msgs.map .onMessage ++ tail ∧
    (tail = [] ∨ app.handlers.onClose = true ∧ c.state = .wsClosed ∧
      ∃ code reason, tail = [.onClose code reason])

theorem Ordered.callbackOrder (h : c.Ordered app) : CallbackOrder app c.trace := by
  obtain ⟨msgs, tail, htrace, rfl | ⟨-, -, htail⟩⟩ := h
  · exact ⟨msgs, [], htrace, Or.inl rfl⟩
  · exact ⟨msgs, tail, htrace, Or.inr htail⟩

/-- While the connection is open, or if `on_close` is not installed, nothing follows the
messages. -/
theorem Ordered.messages (h : c.Ordered app)
    (hopen : app.handlers.onClose = true → c.state = .wsOpen) :
    ∃ msgs : List Bytes, c.trace = opening app ++ msgs.map .onMessage := by
  obtain ⟨msgs, tail, htrace, rfl | ⟨hinstalled, hclosed, -⟩⟩ := h
  · exact ⟨msgs, by rw [htrace, List.append_nil]⟩
  · rw [hopen hinstalled] at hclosed
    cases hclosed

theorem Ordered.onMessage (h : c.Ordered app)
    (hopen : app.handlers.onClose = true → c.state = .wsOpen) (msg : Bytes) :
    Ordered app { c with trace := c.trace ++ [.onMessage msg] } := by
  obtain ⟨msgs, htrace⟩ := h.messages hopen
  exact ⟨msgs ++ [msg], [], by simp [htrace], Or.inl rfl⟩

theorem Ordered.close (h : c.Ordered app) (q : Option ℕ) (code : UInt16) (reason : Bytes) :
    (c.close app q code reason).Ordered app := by
  rcases close_cases app c q code reason with ⟨-, heq⟩ | ⟨hs, tasks, heq⟩
  · rwa [heq]
  · obtain ⟨msgs, htrace⟩ := h.messages fun _ => hs
    rw [heq]
    refine ⟨msgs, if app.handlers.onClose then [.onClose code reason] else [], by simp [htrace], ?_⟩
    split_ifs with hinstalled
    · exact Or.inr ⟨hinstalled, rfl, code, reason, rfl⟩
    · exact Or.inl rfl

/-- The trace is in order, and what the suspended coroutines still have to do keeps it so. -/
structure OrderInv (app : App) (c : Conn) : Prop where
  ordered : c.Ordered app
  writers : ∀ w ∈ c.writers, ∀ e ∈ w.rest, e.Orderly app.handlers

theorem keeps_orderInv : Keeps app (Effect.Orderly app.handlers) (OrderInv app) where
  spawn _ h := ⟨h.ordered, h.writers⟩
  close {c q} code reason _ h := by
    refine ⟨h.ordered.close q code reason, ?_⟩
    rcases close_cases app c q code reason with ⟨-, heq⟩ | ⟨-, tasks, heq⟩
    · rw [heq]
      exact h.writers
    · rw [heq]
      exact h.writers
  onMessage msg hno h :=
    ⟨h.ordered.onMessage (fun hyes => by rw [show _ = false from hno] at hyes; cases hyes) msg,
      h.writers⟩
  onClose _ _ hno _ := hno.elim
  push _ _ h := ⟨h.ordered, h.writers⟩
  enterWriting frame owner rest _ hrest h := by
    refine ⟨h.ordered, fun w hw => ?_⟩
    rcases List.mem_append.mp hw with hw | hw
    · exact h.writers w hw
    · rw [List.mem_singleton.mp hw]
      exact hrest
  finish owner h := by
    cases owner with
    | readLoop => exact ⟨h.ordered, h.writers⟩
    | task => exact h

/-! ### Before `start` -/

/-- A call of `close`, or a `close_async` task that starts. -/
def startsClose (c : Conn) : Event → Bool
  | .call (.close _ _) => true
  | .runTask =>
    match c.tasks with
    | .closeAsync _ _ :: _ => true
    | _ => false
  | _ => false

/-- `start` has not been called: there has been no callback, and the tasks that write call none. -/
structure Unopened (app : App) (c : Conn) : Prop where
  notStarted : c.readLoop = .notStarted
  trace : c.trace = []
  writers : ∀ w ∈ c.writers, w.owner = .task ∧ ∀ e ∈ w.rest, e.Silent app.handlers

theorem Unopened.close (h : c.Unopened app) (hno : app.handlers.onClose = false) (q : Option ℕ)
    (code : UInt16) (reason : Bytes) : (c.close app q code reason).Unopened app := by
  rcases close_cases app c q code reason with ⟨-, heq⟩ | ⟨-, tasks, heq⟩
  · rwa [heq]
  · rw [heq]
    exact ⟨h.notStarted, by simp [h.trace, hno], h.writers⟩

theorem Unopened.spawn (h : c.Unopened app) (t : Task) : (c.spawn t).Unopened app :=
  ⟨h.notStarted, h.trace, h.writers⟩

theorem Unopened.call (h : c.Unopened app) (k : Call)
    (hno : app.handlers.onClose = true → c.startsClose (.call k) = false) :
    (c.call app k).Unopened app := by
  cases k with
  | close code reason =>
    refine h.close ?_ none code reason
    rw [← Bool.not_eq_true]
    intro hyes
    cases hno hyes
  | closeAsync code reason => exact h.spawn _
  | sendTextAsync payload | sendBinaryAsync payload =>
    rw [Conn.call]
    split_ifs
    · exact h.spawn _
    · exact h

/-- A task up to its next suspension. -/
theorem Unopened.runEffects (h : c.Unopened app) {effects : List Effect}
    (hsilent : ∀ e ∈ effects, e.Silent app.handlers) (q : Option ℕ) :
    (runEffects app .task effects q c).Unopened app := by
  induction effects generalizing q c with
  | nil => exact h
  | cons e effects ih =>
    obtain ⟨he, hrest⟩ := List.forall_mem_cons.mp hsilent
    cases e with
    | doWrite frame =>
      rw [Conn.runEffects]
      split_ifs
      · exact ih (c := c.push frame) ⟨h.notStarted, h.trace, h.writers⟩ hrest _
      · refine ⟨h.notStarted, h.trace, fun w hw => ?_⟩
        rcases List.mem_append.mp hw with hw | hw
        · exact h.writers w hw
        · rw [List.mem_singleton.mp hw]
          exact ⟨rfl, hrest⟩
    | onMessage msg => exact he.elim
    | onClose code reason => exact he.elim
    | close code reason => exact ih (h.close he _ code reason) hrest _

/-- The body of a task that does not call `on_close`. -/
theorem silent_taskEffects {t : Task}
    (hno : app.handlers.onClose = true → ∀ code reason, t ≠ .closeAsync code reason) :
    ∀ e ∈ c.taskEffects t, e.Silent app.handlers := by
  cases t with
  | closeAsync code reason =>
    intro e he
    have hnone : app.handlers.onClose = false := by
      rw [← Bool.not_eq_true]
      exact fun hyes => hno hyes code reason rfl
    unfold taskEffects sendCloseWithReason at he
    simp only [List.cons_append, List.nil_append, List.mem_cons, List.not_mem_nil, or_false] at he
    rcases he with rfl | rfl
    · trivial
    · exact hnone
  | sendText payload | sendBinary payload =>
    unfold taskEffects
    split_ifs
    · exact List.forall_mem_singleton.mpr trivial
    · exact fun _ he => absurd he List.not_mem_nil

theorem Unopened.start (h : c.Unopened app) (hopen : app.handlers.onOpen = true) :
    (c.start app).OrderInv app := by
  apply keeps_orderInv.start
  · intro _
    refine ⟨⟨[], [], ?_, Or.inl rfl⟩, fun w hw e he => ((h.writers w hw).2 e he).orderly⟩
    simp [opening, hopen, h.trace]
  · exact fun hno => absurd hopen hno

/-- Before `start` the connection stays as it is, as far as the callbacks go. -/
theorem unopened_step {e : Event} (h : c.Unopened app) (hnot : e ≠ .start)
    (hno : app.handlers.onClose = true → c.startsClose e = false)
    (hstep : step app c e = some c') : c'.Unopened app := by
  have hothers : ∀ k, ∀ w ∈ c.writers.eraseIdx k,
      w.owner = .task ∧ ∀ e ∈ w.rest, e.Silent app.handlers :=
    fun k w hw => h.writers w (List.mem_of_mem_eraseIdx hw)
  -- only tasks and their writes are under way: the read loop does not exist yet
  cases stepped_of_step hstep with
  | start _ => exact absurd rfl hnot
  | call k => exact h.call k hno
  | recv f hreading hopen =>
    rw [h.notStarted] at hreading
    cases hreading
  | readError hreading =>
    rw [h.notStarted] at hreading
    cases hreading
  | resume f hgot =>
    rw [h.notStarted] at hgot
    cases hgot
  | runTask t tasks htasks =>
    have hc : Unopened app { c with tasks } := ⟨h.notStarted, h.trace, h.writers⟩
    refine hc.runEffects (silent_taskEffects fun hyes code reason ht => ?_) none
    have hno := hno hyes
    rw [startsClose, htasks, ht] at hno
    cases hno
  | writeLast k w hw hq =>
    obtain ⟨howner, hrest⟩ := h.writers w (List.mem_of_getElem? hw)
    rw [howner]
    refine Unopened.runEffects ?_ hrest _
    exact ⟨h.notStarted, h.trace, hothers k⟩
  | writeNext k w buf queue hw hq =>
    refine ⟨h.notStarted, h.trace, fun w' hw' => ?_⟩
    rcases List.mem_append.mp hw' with hw' | hw'
    · exact hothers k w' hw'
    · rw [List.mem_singleton.mp hw']
      exact h.writers w (List.mem_of_getElem? hw)
  | writeFail k w hw =>
    obtain ⟨howner, -⟩ := h.writers w (List.mem_of_getElem? hw)
    refine ⟨?_, h.trace, hothers k⟩
    simp [howner, h.notStarted]

/-! ### Runs -/

/-- If `on_close` is installed: the frame that is handled takes no error branch, and if it ends a
message, the connection is open. -/
def HandlesInOrder (app : App) (c : Conn) : Event → Prop
  | .resume =>
    match c.readLoop with
    | .got f => app.handlers.onClose = true → ¬ Offends c.fb f ∧
        (app.handlers.onMessage = true → f.EndsData → c.state = .wsOpen)
    | _ => True
  | _ => True

/-- If `on_open` and `on_close` are installed: before `start`, `close` is not called and no
`close_async` task starts. -/
def OpensFirst (app : App) (c : Conn) (e : Event) : Prop :=
  app.handlers.onOpen = true → app.handlers.onClose = true → c.readLoop = .notStarted →
    c.startsClose e = false

/-- The condition of the callback order. -/
def CallbackSafe (app : App) (c : Conn) (e : Event) : Prop :=
  c.OpensFirst app e ∧ c.HandlesInOrder app e

instance (app : App) (c : Conn) (e : Event) : Decidable (c.HandlesInOrder app e) := by
  unfold HandlesInOrder
  split
  · split
    · infer_instance
    · infer_instance
  · infer_instance

instance (app : App) (c : Conn) (e : Event) : Decidable (c.CallbackSafe app e) := by
  unfold CallbackSafe OpensFirst
  infer_instance

theorem orderly_taskEffects (t : Task) : ∀ e ∈ c.taskEffects t, e.Orderly app.handlers := by
  apply forall_taskEffects
  · exact orderly_gracefulClose app.handlers
  · exact fun _ _ _ => trivial

theorem orderInv_resume {f : WsFrame} (h : c.OrderInv app)
    (hsafe : app.handlers.onClose = true → ¬ Offends c.fb f ∧
      (app.handlers.onMessage = true → f.EndsData → c.state = .wsOpen)) (fb : FrameBody) :
    (runEffects app .readLoop (handleParsedFrame app.handlers f c.fb).2 none
      { c with fb }).OrderInv app := by
  have hfb : OrderInv app { c with fb } := ⟨h.ordered, h.writers⟩
  cases hinstalled : app.handlers.onClose with
  | false =>
    exact keeps_orderInv.runEffects .readLoop (effects_of_no_onClose _ hinstalled) none hfb
  | true =>
    obtain ⟨hoff, hdata⟩ := hsafe hinstalled
    rcases effects_of_not_offends app.handlers hoff with horderly | ⟨hends, m, heq⟩
    · exact keeps_orderInv.runEffects .readLoop horderly none hfb
    · -- the message is delivered while the connection is open; what `on_message` calls comes after
      rw [heq]
      split_ifs with hmsg
      · have hopen := hdata hmsg hends
        have hrec : OrderInv app { c with fb, trace := c.trace ++ [.onMessage m] } :=
          ⟨hfb.ordered.onMessage (fun _ => hopen) m, h.writers⟩
        exact keeps_orderInv.finish .readLoop (keeps_orderInv.callback hrec)
      · exact keeps_orderInv.finish .readLoop hfb

/-- A step after `start`, or without `on_open`. -/
theorem orderInv_step {e : Event} (h : c.OrderInv app)
    (hstarted : app.handlers.onOpen = true → c.readLoop ≠ .notStarted)
    (hsafe : c.HandlesInOrder app e) (hstep : step app c e = some c') : c'.OrderInv app := by
  have hothers : ∀ k, ∀ w ∈ c.writers.eraseIdx k, ∀ e ∈ w.rest, e.Orderly app.handlers :=
    fun k w hw => h.writers w (List.mem_of_mem_eraseIdx hw)
  cases stepped_of_step hstep with
  | start hnot => exact keeps_orderInv.start (fun hopen => absurd hnot (hstarted hopen)) fun _ => h
  | call k => exact keeps_orderInv.call k h
  | recv f hreading hopen => exact ⟨h.ordered, h.writers⟩
  | readError hreading => exact ⟨h.ordered, h.writers⟩
  | resume f hgot =>
    rw [HandlesInOrder, hgot] at hsafe
    exact orderInv_resume h hsafe _
  | runTask t tasks htasks =>
    exact keeps_orderInv.runEffects .task (orderly_taskEffects t) none ⟨h.ordered, h.writers⟩
  | writeLast k w hw hq =>
    exact keeps_orderInv.runEffects w.owner (h.writers w (List.mem_of_getElem? hw)) _
      ⟨h.ordered, hothers k⟩
  | writeNext k w buf queue hw hq =>
    refine ⟨h.ordered, fun w' hw' => ?_⟩
    rcases List.mem_append.mp hw' with hw' | hw'
    · exact hothers k w' hw'
    · rw [List.mem_singleton.mp hw']
      exact h.writers w (List.mem_of_getElem? hw)
  | writeFail k w hw => exact ⟨h.ordered, hothers k⟩

/-- The invariant of the runs. -/
def OpeningInv (app : App) (c : Conn) : Prop :=
  c.Unopened app ∧ app.handlers.onOpen = true ∨
    c.OrderInv app ∧ (app.handlers.onOpen = true → c.readLoop ≠ .notStarted)

theorem openingInv_step {e : Event} (h : c.OpeningInv app) (hsafe : c.CallbackSafe app e)
    (hstep : step app c e = some c') : c'.OpeningInv app := by
  obtain ⟨hfirst, hhandles⟩ := hsafe
  -- `start` takes the run from the first case to the second, with `on_open` as the whole trace
  rcases h with ⟨h, hopen⟩ | ⟨h, hstarted⟩
  · cases e with
    | start =>
      cases stepped_of_step hstep with
      | start hnot => exact Or.inr ⟨h.start hopen, fun _ => started_start app c⟩
    | _ =>
      exact Or.inl ⟨unopened_step h Event.noConfusion
        (fun hclose => hfirst hopen hclose h.notStarted) hstep, hopen⟩
  · exact Or.inr ⟨orderInv_step h hstarted hhandles hstep,
      fun hopen => started_step (hstarted hopen) hstep⟩

/-- The `WebSocket` as it is constructed. -/
theorem openingInv_empty (app : App) : OpeningInv app {} := by
  cases hopen : app.handlers.onOpen with
  | true =>
    exact Or.inl ⟨⟨rfl, rfl, fun _ hw => absurd hw List.not_mem_nil⟩, hopen⟩
  | false =>
    refine Or.inr ⟨⟨⟨[], [], ?_, Or.inl rfl⟩, fun _ hw => absurd hw List.not_mem_nil⟩, ?_⟩
    · simp [opening, hopen]
    · rw [hopen]
      exact Bool.noConfusion

end Conn

/-- **Callback order** over every run that meets the condition: the trace is in order, or `start`
has not been called yet and neither has any callback. -/
theorem callbackOrder_of_guarded (app : App) (es : List Conn.Event) {c : Conn}
    (hsafe : Guarded (Conn.step app) (Conn.CallbackSafe app) {} es)
    (hrun : run (Conn.step app) {} es = some c) :
    CallbackOrder app c.trace ∨ c.readLoop = .notStarted ∧ c.trace = [] := by
  rcases guarded_invariant Conn.openingInv_step (Conn.openingInv_empty app) hsafe hrun with h | h
  · exact Or.inr ⟨h.1.notStarted, h.1.trace⟩
  · exact Or.inl h.1.ordered.callbackOrder

/-- An application that has installed all callbacks and calls nothing from inside them. -/
def silentApp : App where
  handlers := { onOpen := true, onMessage := true, onClose := true }

/-- A message, then the server closes. -/
def messageThenClose : List Conn.Event :=
  [.start, .recv { fin := true, opcode := wsText, payloadLength := 2, payloadData := bytes "hi" },
    .resume, .call (.closeAsync 1000 []), .runTask, .writeDone 0]

theorem callbackOrder_of_guarded_messageThenClose :
    ∃ c, run (Conn.step silentApp) {} messageThenClose = some c ∧
      (CallbackOrder silentApp c.trace ∨ c.readLoop = .notStarted ∧ c.trace = []) :=
  ⟨_, rfl, callbackOrder_of_guarded silentApp messageThenClose (by decide) rfl⟩

/-- Two Pings without `fin`. -/
def fragmentedPings : List Conn.Event :=
  [.start, .recv { fin := false, opcode := wsPing }, .resume, .writeDone 0,
    .recv { fin := false, opcode := wsPing }, .resume, .writeDone 0]

/-- Each of two fragmented Pings calls `on_close`. -/
theorem not_callbackOrder_fragmentedPings :
    ¬ ∀ (app : App) (es : List Conn.Event) (c : Conn), run (Conn.step app) {} es = some c →
      CallbackOrder app c.trace ∨ c.readLoop = .notStarted ∧ c.trace = [] := by
  intro h
  rcases h silentApp fragmentedPings _ rfl with ⟨msgs, tail, htrace, htail⟩ | ⟨hnot, -⟩
  · -- the trace of the run, evaluated
    have htrace' : [Callback.onOpen, .onClose 1002 (bytes "Fragmented control"),
        .onClose 1002 (bytes "Fragmented control")] = [.onOpen] ++ msgs.map .onMessage ++ tail :=
      htrace
    cases msgs with
    | nil => rcases htail with rfl | ⟨code, reason, rfl⟩ <;> simp at htrace'
    | cons m msgs => simp at htrace'
  · cases hnot

/-- `close_websockets` closes the `WebSocket` before `start` has been called. -/
example : (run (Conn.step silentApp) {} [.call (.close 1001 []), .start]).map Conn.trace
    = some [.onClose 1001 [], .onOpen] := by
  decide

end WebSocketsLib
