import WebSocketsLib.Lib.Runs
import WebSocketsLib.WebSocket.Equiv.Connection
import Mathlib.Tactic.Common

/-!
# What a graceful close has written

A graceful close queues a Close frame with `do_write` and calls `close` when `do_write` returns.
`do_write` returns at once when another coroutine is inside the writing loop, and the socket is then
shut down with the Close frame still in the queue.

`flushed_iff`: as long as no write fails, the Close frame and all frames before it have been
written at the shutdown exactly when no graceful close of the run finds `is_writing_` set.
-/

namespace WebSocketsLib

open Runs

namespace Conn

variable {app : App} {c c' : Conn}

/-- If a graceful close has shut the socket down, the frames queued up to and including its Close
frame had been written. -/
def Flushed (c : Conn) : Prop :=
  ∀ s n, c.shutdown = some s → s.closeQueuedAt = some n → s.queued.take n <+: s.written

/-- No write fails before the socket is shut down. -/
def WritesSucceed (c : Conn) : Event → Prop
  | .writeFail _ => c.state = .wsClosed
  | _ => True

/-- Whether the event starts a graceful close: a Close frame with `fin` set, or `close_async`. -/
def gracefulClose (c : Conn) : Event → Bool
  | .resume =>
    match c.readLoop with
    | .got f => f.opcode == wsClose && f.fin
    | _ => false
  | .runTask =>
    match c.tasks with
    | .closeAsync _ _ :: _ => true
    | _ => false
  | _ => false

/-- A graceful close of an open connection finds `is_writing_` clear. -/
def WriterIdle (c : Conn) (e : Event) : Prop :=
  c.state = .wsOpen → c.gracefulClose e = true → c.isWriting = false

instance (c : Conn) (e : Event) : Decidable (c.WritesSucceed e) := by
  unfold WritesSucceed
  split
  · infer_instance
  · infer_instance

instance (c : Conn) (e : Event) : Decidable (c.WriterIdle e) := by
  unfold WriterIdle
  infer_instance

/-! ### The invariant of an open connection -/

/-- What a suspended coroutine still has to do contains no `close`, or is one. -/
def CloseLast (rest : List Effect) : Prop :=
  (∀ e ∈ rest, ∀ code reason, e ≠ .close code reason) ∨
    ∃ code reason, rest = [.close code reason]

/-- The write queue of a connection without failed writes: the frames queued are those written,
then those in the queue; the one writer has handed the front of the queue to the socket, and
without a writer the queue is empty. -/
structure QueueInv (c : Conn) : Prop where
  fifo : c.queued = c.written ++ c.writeQueue
  writer : c.isWriting = false ∧ c.writers = [] ∧ c.writeQueue = [] ∨
    c.isWriting = true ∧ ∃ w queue, c.writers = [w] ∧ c.writeQueue = w.buf :: queue
  rest : ∀ w ∈ c.writers, CloseLast w.rest
  shutdown : c.shutdown = none

/-- The invariant: nothing is said about the queue of a closed connection. -/
def FlushInv (c : Conn) : Prop :=
  c.state = .wsOpen → c.QueueInv

theorem QueueInv.flushed (h : c.QueueInv) : c.Flushed := by
  intro s n hs
  rw [h.shutdown] at hs
  cases hs

/-- The coroutine whose write completes is the only one, and its buffer the front of the queue. -/
theorem QueueInv.writing (h : c.QueueInv) {k : ℕ} {w : Writer} (hw : c.writers[k]? = some w) :
    c.writers.eraseIdx k = [] ∧ c.writeQueue = w.buf :: c.writeQueue.tail := by
  rcases h.writer with ⟨-, hws, -⟩ | ⟨-, w', queue, hws, hq⟩
  · rw [hws] at hw
    cases hw
  · rw [hws] at hw
    cases k with
    | zero =>
      obtain rfl : w' = w := Option.some.inj hw
      exact ⟨by rw [hws]; rfl, by rw [hq]; rfl⟩
    | succ k => cases hw

theorem QueueInv.isWriting (h : c.QueueInv) {k : ℕ} {w : Writer} (hw : c.writers[k]? = some w) :
    c.isWriting = true := by
  rcases h.writer with ⟨-, hws, -⟩ | ⟨hyes, -⟩
  · rw [hws] at hw
    cases hw
  · exact hyes

theorem flushInv_of_closed (h : c.state = .wsClosed) : c.FlushInv := by
  intro hopen
  rw [h] at hopen
  cases hopen

theorem QueueInv.push (h : c.QueueInv) (hw : c.isWriting = true) (frame : Bytes) :
    (c.push frame).QueueInv := by
  obtain ⟨hfifo, hwriter, hrest, hshut⟩ := h
  refine ⟨?_, Or.inr ⟨hw, ?_⟩, hrest, hshut⟩
  · rw [Conn.push, hfifo, List.append_assoc]
  · rcases hwriter with ⟨hno, -⟩ | ⟨-, w, queue, hws, hq⟩
    · rw [hw] at hno
      cases hno
    · exact ⟨w, queue ++ [frame], hws, by rw [Conn.push, hq, List.cons_append]⟩

theorem QueueInv.enterWriting (h : c.QueueInv) (hw : c.isWriting = false) (frame : Bytes)
    (owner : Owner) {rest : List Effect} (hr : CloseLast rest) :
    ((c.push frame).enterWriting owner rest).QueueInv := by
  obtain ⟨hfifo, hwriter, hrest, hshut⟩ := h
  obtain ⟨hws, hq⟩ : c.writers = [] ∧ c.writeQueue = [] := by
    rcases hwriter with ⟨-, h⟩ | ⟨hyes, -⟩
    · exact h
    · rw [hw] at hyes
      cases hyes
  refine ⟨?_, Or.inr ⟨rfl, ?_⟩, ?_, hshut⟩
  · rw [Conn.enterWriting, Conn.push, hfifo, List.append_assoc]
  · rw [Conn.enterWriting, Conn.push, hws, hq]
    exact ⟨_, [], rfl, rfl⟩
  · intro w hw
    rw [Conn.enterWriting, Conn.push, hws] at hw
    rw [List.mem_singleton.mp hw]
    exact hr

/-- The write of the last buffer completes. -/
theorem QueueInv.writeLast (h : c.QueueInv) {k : ℕ} {w : Writer} (hw : c.writers[k]? = some w)
    (hq : c.writeQueue.tail = []) : QueueInv { c with
      written := c.written ++ [w.buf]
      writeQueue := []
      writers := c.writers.eraseIdx k
      isWriting := false } := by
  obtain ⟨hws, hqueue⟩ := h.writing hw
  refine ⟨?_, Or.inl ⟨rfl, hws, rfl⟩, ?_, h.shutdown⟩
  · rw [h.fifo, hqueue, hq, List.append_nil]
  · rw [hws]
    exact fun _ he => nomatch he

/-- The writer goes on with the next buffer of the queue. -/
theorem QueueInv.writeNext (h : c.QueueInv) {k : ℕ} {w : Writer} {buf : Bytes}
    {queue : List Bytes} (hw : c.writers[k]? = some w) (hq : c.writeQueue.tail = buf :: queue) :
    QueueInv { c with
      written := c.written ++ [w.buf]
      writeQueue := buf :: queue
      writers := c.writers.eraseIdx k ++ [{ w with buf }] } := by
  obtain ⟨hws, hqueue⟩ := h.writing hw
  refine ⟨?_, Or.inr ⟨h.isWriting hw, _, queue, by rw [hws]; rfl, rfl⟩, ?_, h.shutdown⟩
  · rw [h.fifo, hqueue, hq, List.append_assoc, List.singleton_append]
  · rw [hws]
    exact List.forall_mem_singleton.mpr (h.rest w (List.mem_of_getElem? hw))

/-- A `close` that no Close frame precedes, and one that finds the queue written, leave a flushed
connection. -/
theorem flushed_close (h : c.Flushed) {q : Option ℕ} (hq : q = none ∨ c.queued = c.written)
    (code : UInt16) (reason : Bytes) : (c.close app q code reason).Flushed := by
  rcases close_cases app c q code reason with ⟨-, heq⟩ | ⟨-, tasks, heq⟩
  · rwa [heq]
  · rw [heq]
    intro s n hshut hn
    obtain rfl := Option.some.inj hshut
    rcases hq with rfl | hq
    · cases hn
    · rw [show _ = c.written from hq]
      exact List.take_prefix n _

/-- Coroutines that do not close keep the invariant and the connection flushed. -/
theorem keeps_flushInv (app : App) :
    Keeps app (fun e => ∀ code reason, e ≠ .close code reason)
      (fun c => c.FlushInv ∧ c.Flushed) where
  spawn _ h := ⟨fun hopen => { h.1 hopen with }, h.2⟩
  close code reason hq h :=
    ⟨flushInv_of_closed (close_state ..),
      flushed_close h.2 (Or.inl (hq.resolve_right fun hno => hno code reason rfl)) code reason⟩
  onMessage _ _ h := ⟨fun hopen => { h.1 hopen with }, h.2⟩
  onClose _ _ _ h := ⟨fun hopen => { h.1 hopen with }, h.2⟩
  push frame hw h := ⟨fun hopen => (h.1 hopen).push hw frame, h.2⟩
  enterWriting frame owner rest hw hrest h :=
    ⟨fun hopen => (h.1 hopen).enterWriting hw frame owner (Or.inl hrest), h.2⟩
  finish owner h := by
    cases owner with
    | task => exact h
    | readLoop => exact ⟨fun hopen => { h.1 hopen with }, h.2⟩

/-! ### The effects that close -/

/-- Sending a Close frame and closing keeps an open connection flushed exactly when nobody is
writing. -/
theorem flushed_gracefulClose (app : App) {c : Conn} (h : c.QueueInv) (hopen : c.state = .wsOpen)
    (owner : Owner) (frame : Bytes) (code : UInt16) (reason : Bytes) :
    (runEffects app owner [.doWrite frame, .close code reason] none c).FlushInv ∧
      ((runEffects app owner [.doWrite frame, .close code reason] none c).Flushed
        ↔ c.isWriting = false) := by
  rw [runEffects]
  split_ifs with hw
  · -- `do_write` has returned at once: the Close frame is in the queue when `close` shuts down
    replace hw : c.isWriting = true := hw
    have hfifo := (h.push hw frame).fifo
    have hshut := close_shutdown app (c := c.push frame) hopen
      (some (c.push frame).queued.length) code reason
    rw [runEffects, runEffects]
    refine ⟨flushInv_of_closed (by simp), iff_of_false (fun hflushed => ?_) (by simp [hw])⟩
    -- all that is queued would be a prefix of what is written, which is at least one frame shorter
    have hlen := (hflushed _ _ ((finish_shutdown owner).trans hshut) rfl).length_le
    rw [List.take_length, hfifo] at hlen
    simp only [Conn.push, List.length_append, List.length_singleton] at hlen
    omega
  · -- the coroutine is suspended in the writing loop, with the `close` still to come
    replace hw : c.isWriting = false := Bool.not_eq_true _ ▸ hw
    have hq := h.enterWriting hw frame owner (Or.inr ⟨code, reason, rfl⟩)
    exact ⟨fun _ => hq, iff_of_true hq.flushed hw⟩

/-- A coroutine that leaves the writing loop has written everything. -/
theorem flushed_leaveWriting {rest : List Effect} (hrest : CloseLast rest) (h : c.QueueInv)
    (hw : c.isWriting = false) (owner : Owner) (q : Option ℕ) :
    (runEffects app owner rest q c).FlushInv ∧ (runEffects app owner rest q c).Flushed := by
  rcases hrest with hno | ⟨code, reason, rfl⟩
  · exact (keeps_flushInv app).runEffects owner hno q ⟨fun _ => h, h.flushed⟩
  · have hwritten : c.queued = c.written := by
      rcases h.writer with ⟨-, -, hq⟩ | ⟨hyes, -⟩
      · rw [h.fifo, hq, List.append_nil]
      · rw [hw] at hyes
        cases hyes
    exact (keeps_flushInv app).finish owner ⟨flushInv_of_closed (close_state ..),
      flushed_close h.flushed (Or.inr hwritten) code reason⟩

/-- Only a Close frame with `fin` set closes. -/
theorem noClose_effects (handlers : WsHandlers) {f : WsFrame} {fb : FrameBody}
    (h : ¬ (f.opcode = wsClose ∧ f.fin = true)) :
    ∀ e ∈ (handleParsedFrame handlers f fb).2, ∀ code reason, e ≠ .close code reason := by
  refine forall_handleParsedFrame ?_ (fun _ => nofun) (fun hc => absurd hc h) fun _ _ => nofun
  intro code reason e he
  rw [reportError, sendCloseWithReason] at he
  split_ifs at he
  · simp only [List.cons_append, List.nil_append, List.mem_cons, List.not_mem_nil, or_false] at he
    rcases he with rfl | rfl
    · exact nofun
    · exact nofun
  · rw [show e = _ from List.mem_singleton.mp he]
    exact nofun

theorem handleParsedFrame_close (handlers : WsHandlers) {f : WsFrame} (fb : FrameBody)
    (h : f.opcode = wsClose ∧ f.fin = true) : ∃ frame code reason,
      (handleParsedFrame handlers f fb).2 = [.doWrite frame, .close code reason] := by
  obtain ⟨hop, hfin⟩ := h
  rw [handleParsedFrame, hop, hfin]
  exact ⟨_, _, _, rfl⟩

/-! ### Steps and runs -/

/-- One step of an open connection. -/
theorem flushed_step_open {e : Event} (hopen : c.state = .wsOpen) (h : c.QueueInv)
    (hok : c.WritesSucceed e) (hstep : step app c e = some c') :
    c'.FlushInv ∧ (c'.Flushed ↔ c.WriterIdle e) := by
  have hk := keeps_flushInv app
  -- the steps at which no graceful close calls `do_write`
  have hquiet : c.gracefulClose e = false → c'.FlushInv ∧ c'.Flushed →
      c'.FlushInv ∧ (c'.Flushed ↔ c.WriterIdle e) := by
    intro hno hc'
    refine ⟨hc'.1, iff_of_true hc'.2 fun _ hyes => ?_⟩
    rw [hno] at hyes
    cases hyes
  have hgraceful : c.gracefulClose e = true → (c.WriterIdle e ↔ c.isWriting = false) :=
    fun hyes => ⟨fun hw => hw hopen hyes, fun hw _ _ => hw⟩
  cases stepped_of_step hstep with
  | start hnot =>
    exact hquiet rfl (hk.start (fun _ => ⟨fun _ => { h with }, h.flushed⟩)
      fun _ => ⟨fun _ => h, h.flushed⟩)
  | call k => exact hquiet rfl (hk.call k ⟨fun _ => h, h.flushed⟩)
  | recv f hreading _ => exact hquiet rfl ⟨fun _ => { h with }, h.flushed⟩
  | readError hreading => exact hquiet rfl ⟨fun _ => { h with }, h.flushed⟩
  | resume f hgot =>
    have hfb : ∀ fb, QueueInv { c with fb } := fun fb => { h with }
    have hevent : c.gracefulClose .resume = (f.opcode == wsClose && f.fin) := by
      rw [gracefulClose, hgot]
    by_cases hclose : f.opcode = wsClose ∧ f.fin = true
    · obtain ⟨frame, code, reason, heq⟩ := handleParsedFrame_close app.handlers c.fb hclose
      rw [heq, hgraceful (by simp [hevent, hclose])]
      exact flushed_gracefulClose app (hfb (handleParsedFrame app.handlers f c.fb).1) hopen
        .readLoop frame code reason
    · exact hquiet (by simpa [hevent] using hclose) (hk.runEffects .readLoop
        (noClose_effects _ hclose) none ⟨fun _ => hfb _, (hfb _).flushed⟩)
  | runTask t tasks htasks =>
    have htail : QueueInv { c with tasks } := { h with }
    cases t with
    | closeAsync code reason =>
      rw [hgraceful (by rw [gracefulClose, htasks])]
      exact flushed_gracefulClose app htail hopen .task _ code reason
    | sendText payload | sendBinary payload =>
      refine hquiet (by rw [gracefulClose, htasks]) (hk.runEffects .task ?_ none
        ⟨fun _ => htail, htail.flushed⟩)
      rw [taskEffects, if_pos hopen]
      exact List.forall_mem_singleton.mpr nofun
  | writeLast k w hw hq =>
    exact hquiet rfl (flushed_leaveWriting (h.rest w (List.mem_of_getElem? hw)) (h.writeLast hw hq)
      rfl w.owner _)
  | writeNext k w buf queue hw hq =>
    have hinv := h.writeNext hw hq
    exact hquiet rfl ⟨fun _ => hinv, hinv.flushed⟩
  | writeFail k w hw =>
    rw [show c.state = .wsClosed from hok] at hopen
    cases hopen

theorem flushed_step {e : Event} (h : c.FlushInv) (hok : c.WritesSucceed e)
    (hstep : step app c e = some c') :
    c'.FlushInv ∧ (c'.Flushed ↔ c.Flushed ∧ c.WriterIdle e) := by
  cases hs : c.state with
  | wsOpen =>
    obtain ⟨hinv, hflushed⟩ := flushed_step_open hs (h hs) hok hstep
    exact ⟨hinv, by rw [hflushed, and_iff_right (h hs).flushed]⟩
  | wsClosed =>
    -- neither the record of the shutdown nor the condition can change any more
    obtain ⟨hclosed, hshut⟩ := shutdown_step hs hstep
    have hidle : c.WriterIdle e := fun hopen => by rw [hs] at hopen; cases hopen
    refine ⟨flushInv_of_closed hclosed, ?_⟩
    rw [and_iff_left hidle, Flushed, Flushed, hshut]

/-- The `WebSocket` as it is constructed. -/
theorem queueInv_empty : QueueInv {} :=
  ⟨rfl, Or.inl ⟨rfl, rfl, rfl⟩, fun _ hw => absurd hw List.not_mem_nil, rfl⟩

end Conn

/-- **A graceful close flushes** exactly when it finds nobody writing: over any run in which no
write fails before the shutdown. -/
theorem flushed_iff (app : App) (es : List Conn.Event) {c : Conn}
    (hok : Guarded (Conn.step app) Conn.WritesSucceed {} es)
    (hrun : run (Conn.step app) {} es = some c) :
    c.Flushed ↔ Guarded (Conn.step app) Conn.WriterIdle {} es := by
  have hempty : Conn.FlushInv {} := fun _ => Conn.queueInv_empty
  rw [guarded_iff Conn.flushed_step hempty hok hrun, and_iff_right Conn.queueInv_empty.flushed]

/-- A message is sent and written, then the server closes. -/
def idleClose : List Conn.Event :=
  [.start, .call (.sendTextAsync (bytes "hi")), .runTask, .writeDone 0, .call (.closeAsync 1000 []),
    .runTask, .writeDone 0]

theorem flushed_iff_idleClose :
    ∃ c, run (Conn.step { handlers := {} }) {} idleClose = some c ∧
      c.state = .wsClosed ∧ c.Flushed :=
  ⟨_, rfl, rfl, (flushed_iff { handlers := {} } idleClose (by decide) rfl).mpr (by decide)⟩

/-- The server closes while the message is being written. -/
def busyClose : List Conn.Event :=
  [.start, .call (.sendTextAsync (bytes "hi")), .runTask, .call (.closeAsync 1000 []), .runTask]

/-- A close during a write shuts the socket down with the message and the Close frame unwritten. -/
theorem not_flushed_busyClose :
    ¬ ∀ (app : App) (es : List Conn.Event) (c : Conn),
      Guarded (Conn.step app) Conn.WritesSucceed {} es →
      run (Conn.step app) {} es = some c → c.Flushed := by
  intro h
  have hflushed := h { handlers := {} } busyClose _ (by decide) rfl
  have hlen := (hflushed _ 2 rfl rfl).length_le
  exact absurd hlen (by decide)

end WebSocketsLib
