import WebSocketsLib.Lib.Runs
import WebSocketsLib.WebSocket.Equiv.Connection
import WebSocketsLib.WebSocket.WriteQueue
import Mathlib.Data.List.InsertIdx

/-!
# The write queue is a queue

`WriteQueue.fifo`: as long as no write fails there is at most one write, what has been handed to the
socket are the arguments of the `do_write` calls in their order, and what is missing is in the queue
behind the one writer.

`Conn.refines_run`: the writes of a WebSocket are a run of its write queue, and so they are in the
order in which they are queued (`Conn.inOrder_run`).
-/

namespace WebSocketsLib

open Runs

namespace WriteQueue

variable {ι : Type} {q q' : WriteQueue ι}

/-- The arguments of the `do_write` calls among the events. -/
def calls (es : List (Event ι)) : List Bytes :=
  es.filterMap fun
    | .doWrite _ bytes => some bytes
    | _ => none

/-- The event is not the failure of a write. -/
def Event.Succeeds : Event ι → Prop
  | .writeFail _ => False
  | _ => True

/-! ### The invariant -/

/-- What has been queued has been written or is in the queue, what has been handed to the socket has
been written or is being written, and the one writer has handed over the front of the queue. -/
structure Inv (q : WriteQueue ι) : Prop where
  queued : q.queued = q.written ++ q.writeQueue
  handed : q.handed = q.written ++ q.writers.map Prod.snd
  writer : q.isWriting = false ∧ q.writers = [] ∧ q.writeQueue = [] ∨
    q.isWriting = true ∧ ∃ who buf queue, q.writers = [(who, buf)] ∧ q.writeQueue = buf :: queue

theorem Inv.initial : Inv ({} : WriteQueue ι) where
  queued := rfl
  handed := rfl
  writer := Or.inl ⟨rfl, rfl, rfl⟩

theorem loop_nil (who : ι) (h : q.writeQueue = []) :
    q.loop who = { q with isWriting := false } := by
  rw [loop, h]

theorem loop_cons (who : ι) {buf : Bytes} {queue : List Bytes} (h : q.writeQueue = buf :: queue) :
    q.loop who
      = { q with writers := q.writers ++ [(who, buf)], handed := q.handed ++ [buf] } := by
  rw [loop, h]

/-- The loop, entered with nobody in it. -/
theorem Inv.loop (who : ι) (hqueued : q.queued = q.written ++ q.writeQueue)
    (hhanded : q.handed = q.written) (hwriters : q.writers = []) (hwriting : q.isWriting = true) :
    Inv (q.loop who) := by
  cases hq : q.writeQueue with
  | nil =>
    rw [loop_nil who hq]
    refine ⟨hqueued, ?_, Or.inl ⟨rfl, hwriters, hq⟩⟩
    show q.handed = q.written ++ q.writers.map Prod.snd
    rw [hhanded, hwriters, List.map_nil, List.append_nil]
  | cons buf queue =>
    rw [loop_cons who hq]
    refine ⟨hqueued, ?_, Or.inr ⟨hwriting, who, buf, queue, ?_, hq⟩⟩
    · show q.handed ++ [buf] = q.written ++ (q.writers ++ [(who, buf)]).map Prod.snd
      rw [hhanded, hwriters]
      rfl
    · show q.writers ++ [(who, buf)] = [(who, buf)]
      rw [hwriters, List.nil_append]

theorem Inv.doWrite (h : Inv q) (who : ι) (bytes : Bytes) : Inv (q.doWrite who bytes) := by
  have hqueued : q.queued ++ [bytes] = q.written ++ (q.writeQueue ++ [bytes]) := by
    rw [h.queued, List.append_assoc]
  unfold WriteQueue.doWrite
  rcases h.writer with ⟨hno, hwriters, hempty⟩ | ⟨hyes, who', buf, queue, hwriters, hqueue⟩
  · -- nobody is in the loop
    have hhanded : q.handed = q.written := by
      rw [h.handed, hwriters, List.map_nil, List.append_nil]
    show Inv (if q.isWriting = true then _ else _)
    rw [if_neg (by rw [hno]; exact Bool.false_ne_true)]
    apply Inv.loop
    · exact hqueued
    · exact hhanded
    · exact hwriters
    · rfl
  · -- the writer will find the buffer behind its own
    show Inv (if q.isWriting = true then _ else _)
    rw [if_pos hyes]
    refine ⟨hqueued, h.handed, Or.inr ⟨hyes, who', buf, queue ++ [bytes], hwriters, ?_⟩⟩
    show q.writeQueue ++ [bytes] = _
    rw [hqueue, List.cons_append]

/-- The coroutine whose write completes is the only one, with the front of the queue. -/
theorem Inv.writing (h : Inv q) {k : ℕ} {w : ι × Bytes} (hw : q.writers[k]? = some w) :
    q.isWriting = true ∧ q.writers = [w] ∧ q.writers.eraseIdx k = [] ∧
      q.writeQueue = w.2 :: q.writeQueue.tail := by
  rcases h.writer with ⟨-, hwriters, -⟩ | ⟨hyes, who, buf, queue, hwriters, hqueue⟩
  · rw [hwriters] at hw
    cases hw
  · rw [hwriters] at hw
    obtain ⟨hk, hget⟩ := List.getElem?_eq_some_iff.mp hw
    obtain rfl : k = 0 := by
      simp only [List.length_singleton] at hk
      omega
    obtain rfl : (who, buf) = w := hget
    refine ⟨hyes, hwriters, ?_, ?_⟩
    · rw [hwriters]
      rfl
    · rw [hqueue]
      rfl

theorem Inv.writeDone (h : Inv q) {k : ℕ} (hstep : q.writeDone k = some q') : Inv q' := by
  unfold WriteQueue.writeDone at hstep
  obtain ⟨⟨who, buf⟩, hw, hq'⟩ := Option.bind_eq_some_iff.mp hstep
  obtain ⟨hyes, hwriters, herase, hqueue⟩ := h.writing hw
  obtain rfl := Option.some.inj hq'
  apply Inv.loop
  · show q.queued = q.written ++ [buf] ++ q.writeQueue.tail
    rw [h.queued, hqueue, List.append_assoc]
    rfl
  · show q.handed = q.written ++ [buf]
    rw [h.handed, hwriters]
    rfl
  · exact herase
  · exact hyes

/-- **Every step** keeps the invariant, unless it is the failure of a write. -/
theorem Inv.step {e : Event ι} (h : Inv q) (hok : e.Succeeds) (hstep : q.step e = some q') :
    Inv q' := by
  cases e with
  | doWrite who bytes =>
    obtain rfl := Option.some.inj hstep
    exact h.doWrite who bytes
  | writeDone k => exact h.writeDone hstep
  | writeFail k => exact hok.elim

/-! ### The order -/

theorem loop_queued (who : ι) (q : WriteQueue ι) : (q.loop who).queued = q.queued := by
  unfold loop
  split
  · rfl
  · rfl

theorem loop_writeQueue (who : ι) (q : WriteQueue ι) :
    (q.loop who).writeQueue = q.writeQueue := by
  unfold loop
  split
  · rfl
  · rfl

theorem doWrite_queued (who : ι) (bytes : Bytes) (q : WriteQueue ι) :
    (q.doWrite who bytes).queued = q.queued ++ [bytes] := by
  unfold doWrite
  dsimp only
  split_ifs
  · rfl
  · exact loop_queued who _

theorem step_queued {e : Event ι} (hstep : q.step e = some q') :
    q'.queued = q.queued ++ calls [e] := by
  cases e with
  | doWrite who bytes =>
    obtain rfl := Option.some.inj hstep
    exact doWrite_queued who bytes q
  | writeDone k =>
    obtain ⟨w, -, hq'⟩ := Option.bind_eq_some_iff.mp hstep
    obtain rfl := Option.some.inj hq'
    rw [loop_queued]
    exact (List.append_nil _).symm
  | writeFail k =>
    obtain ⟨w, -, hq'⟩ := Option.bind_eq_some_iff.mp hstep
    obtain rfl := Option.some.inj hq'
    exact (List.append_nil _).symm

theorem calls_cons (e : Event ι) (es : List (Event ι)) : calls (e :: es) = calls [e] ++ calls es :=
  List.filterMap_append (l := [e])

/-- What is queued in a run are the arguments of its calls, in their order. -/
theorem run_queued {es : List (Event ι)} (hrun : run step q es = some q') :
    q'.queued = q.queued ++ calls es := by
  induction es generalizing q with
  | nil =>
    obtain rfl : q = q' := Option.some.inj hrun
    exact (List.append_nil _).symm
  | cons e es ih =>
    obtain ⟨q₁, hstep, hrest⟩ := run_cons_eq_some hrun
    rw [ih hrest, step_queued hstep, calls_cons e es, List.append_assoc]

/-- The write of the one writer completes. -/
theorem Inv.exists_writeDone (h : Inv q) {buf : Bytes} {queue : List Bytes}
    (hqueue : q.writeQueue = buf :: queue) :
    ∃ q₁, q.writeDone 0 = some q₁ ∧ Inv q₁ ∧ q₁.writeQueue = queue ∧ q₁.queued = q.queued := by
  rcases h.writer with ⟨-, -, hempty⟩ | ⟨-, who, buf', queue', hwriters, -⟩
  · rw [hqueue] at hempty
    cases hempty
  · have hdone : q.writeDone 0 = some (WriteQueue.loop who { q with
        written := q.written ++ [buf']
        writeQueue := q.writeQueue.tail
        writers := q.writers.eraseIdx 0 }) := by
      rw [WriteQueue.writeDone, hwriters]
      rfl
    refine ⟨_, hdone, h.writeDone hdone, ?_, loop_queued who _⟩
    rw [loop_writeQueue]
    show q.writeQueue.tail = queue
    rw [hqueue, List.tail_cons]

/-- **Nothing stays behind**: when no more calls are made, the writer writes all that is left. -/
theorem Inv.drain (h : Inv q) :
    ∃ q', run WriteQueue.step q (List.replicate q.writeQueue.length (.writeDone 0)) = some q' ∧
      Inv q' ∧ q'.writeQueue = [] ∧ q'.queued = q.queued := by
  -- by induction on what is left in the queue
  generalize hn : q.writeQueue.length = n
  induction n generalizing q with
  | zero => exact ⟨q, rfl, h, List.eq_nil_of_length_eq_zero hn, rfl⟩
  | succ n ih =>
    obtain ⟨buf, queue, hqueue⟩ := List.exists_cons_of_length_eq_add_one hn
    obtain ⟨q₁, hdone, hinv, hrest, hqueued⟩ := h.exists_writeDone hqueue
    have hlen : q₁.writeQueue.length = n := by
      rw [hqueue, List.length_cons] at hn
      rw [hrest]
      omega
    obtain ⟨q', hrun, hinv', hempty, hqueued'⟩ := ih hinv hlen
    refine ⟨q', ?_, hinv', hempty, hqueued'.trans hqueued⟩
    show (q.writeDone 0).bind _ = some q'
    rw [hdone]
    exact hrun

/-- Nobody is in the writing loop exactly when there is nothing to write. -/
theorem Inv.idle_iff (h : Inv q) : q.writers = [] ↔ q.writeQueue = [] := by
  rcases h.writer with ⟨-, hwriters, hempty⟩ | ⟨-, who, buf, queue, hwriters, hqueue⟩
  · exact iff_of_true hwriters hempty
  · rw [hwriters, hqueue]
    exact iff_of_false (List.cons_ne_nil _ _) (List.cons_ne_nil _ _)

/-- What has been handed over, and what waits behind the front of the queue. -/
theorem Inv.handed_append (h : Inv q) :
    q.handed ++ q.writeQueue.drop q.writers.length = q.queued := by
  rw [h.handed, h.queued]
  rcases h.writer with ⟨-, hwriters, hempty⟩ | ⟨-, who, buf, queue, hwriters, hqueue⟩
  · rw [hwriters, hempty]
    exact List.append_assoc q.written [] []
  · rw [hwriters, hqueue]
    exact List.append_assoc q.written [buf] queue

/-- What the completions of the writes hand over. -/
theorem Inv.drain_handed (h : Inv q) :
    ∃ q', run WriteQueue.step q (List.replicate q.writeQueue.length (.writeDone 0)) = some q' ∧
      q'.writers = [] ∧ q'.handed = q.queued := by
  obtain ⟨q', hdrain, hinv, hempty, hqueued⟩ := h.drain
  have hhanded := hinv.handed_append
  rw [hempty, List.drop_nil, List.append_nil] at hhanded
  exact ⟨q', hdrain, hinv.idle_iff.mpr hempty, hhanded.trans hqueued⟩

/-- **The write queue** of a run without failed writes: at most one write is outstanding; what has
been handed to the socket, and then what waits in the queue, are the arguments of the `do_write`
calls in their order; with nobody in the writing loop the queue is empty and `is_writing_` clear;
and the completions of the writes that are left hand over all of it. -/
theorem fifo {es : List (Event ι)} (hok : ∀ e ∈ es, e.Succeeds)
    (hrun : run WriteQueue.step {} es = some q) :
    q.writers.length ≤ 1 ∧
    q.handed ++ q.writeQueue.drop q.writers.length = calls es ∧
    (q.writers = [] → q.writeQueue = [] ∧ q.isWriting = false) ∧
    ∃ q', run WriteQueue.step q (List.replicate q.writeQueue.length (.writeDone 0)) = some q' ∧
      q'.writers = [] ∧ q'.handed = calls es := by
  have hinv : Inv q := guarded_invariant (fun h hok hstep => h.step hok hstep) Inv.initial
    ((guarded_iff_forall hrun).mpr hok) hrun
  have hcalls : q.queued = calls es := run_queued hrun
  refine ⟨?_, hinv.handed_append.trans hcalls, ?_, ?_⟩
  · rcases hinv.writer with ⟨-, hwriters, -⟩ | ⟨-, who, buf, queue, hwriters, -⟩
    · rw [hwriters]
      exact Nat.zero_le 1
    · rw [hwriters]
      exact Nat.le_refl 1
  · intro hidle
    rcases hinv.writer with ⟨hno, -, hempty⟩ | ⟨-, who, buf, queue, hwriters, -⟩
    · exact ⟨hempty, hno⟩
    · rw [hwriters] at hidle
      cases hidle
  · obtain ⟨q', hdrain, hidle, hhanded⟩ := hinv.drain_handed
    exact ⟨q', hdrain, hidle, hhanded.trans hcalls⟩

/-- Two coroutines queue behind the write of a third one. -/
def threeCalls : List (Event ℕ) :=
  [.doWrite 1 [1], .doWrite 2 [2], .doWrite 3 [3], .writeDone 0]

theorem fifo_threeCalls :
    ∃ q, run WriteQueue.step {} threeCalls = some q ∧ q.writers.length ≤ 1 ∧
      q.handed ++ q.writeQueue.drop q.writers.length = calls threeCalls := by
  have hrun : run WriteQueue.step {} threeCalls = some
      { writeQueue := [[2], [3]], isWriting := true, writers := [(1, [2])],
        queued := [[1], [2], [3]], handed := [[1], [2]], written := [[1]] } := by
    decide
  have hok : ∀ e ∈ threeCalls, e.Succeeds := by
    simp [threeCalls, Event.Succeeds]
  obtain ⟨hone, horder, -, -⟩ := fifo hok hrun
  exact ⟨_, hrun, hone, horder⟩

end WriteQueue

/-! ### The writes of a WebSocket -/

namespace Conn

/-- A coroutine, as the write queue sees it: what it does after `do_write`. -/
abbrev Coroutine :=
  Owner × List Effect

/-- The write queue of a connection. -/
structure Projects (c : Conn) (q : WriteQueue Coroutine) : Prop where
  writeQueue : q.writeQueue = c.writeQueue
  isWriting : q.isWriting = c.isWriting
  writers : q.writers = c.writers.map fun w => ((w.owner, w.rest), w.buf)
  queued : q.queued = c.queued
  written : q.written = c.written

/-- The connection is where calls of `do_write` and completed writes can lead from `q`. -/
def ReachedFrom (q : WriteQueue Coroutine) (c : Conn) : Prop :=
  ∃ es q', (∀ e ∈ es, e.Succeeds) ∧ run WriteQueue.step q es = some q' ∧ c.Projects q'

variable {app : App} {c c' : Conn} {q : WriteQueue Coroutine}

theorem Projects.reachedFrom (h : c.Projects q) : c.ReachedFrom q :=
  ⟨[], q, fun _ he => absurd he List.not_mem_nil, rfl, h⟩

/-- One more step of the write queue. -/
theorem ReachedFrom.extend (h : c.ReachedFrom q) {e : WriteQueue.Event Coroutine} (hok : e.Succeeds)
    (hstep : ∀ {q'}, c.Projects q' → ∃ q'', q'.step e = some q'' ∧ c'.Projects q'') :
    c'.ReachedFrom q := by
  obtain ⟨es, q', hes, hrun, hproj⟩ := h
  obtain ⟨q'', hq'', hproj'⟩ := hstep hproj
  refine ⟨es ++ [e], q'', ?_, run_append_of_some hrun (run_singleton hq''), hproj'⟩
  exact List.forall_mem_append.mpr ⟨hes, List.forall_mem_singleton.mpr hok⟩

/-- What does not touch the write queue. -/
theorem ReachedFrom.of_eq (h : c.ReachedFrom q) (hqueue : c'.writeQueue = c.writeQueue)
    (hwriting : c'.isWriting = c.isWriting) (hwriters : c'.writers = c.writers)
    (hqueued : c'.queued = c.queued) (hwritten : c'.written = c.written) : c'.ReachedFrom q := by
  obtain ⟨es, q', hes, hrun, hproj⟩ := h
  refine ⟨es, q', hes, hrun, ?_, ?_, ?_, ?_, ?_⟩
  · rw [hproj.writeQueue, hqueue]
  · rw [hproj.isWriting, hwriting]
  · rw [hproj.writers, hwriters]
  · rw [hproj.queued, hqueued]
  · rw [hproj.written, hwritten]

/-- `do_write` while another coroutine is in the loop. -/
theorem ReachedFrom.push (h : c.ReachedFrom q) (hw : c.isWriting = true) (frame : Bytes) :
    (c.push frame).ReachedFrom q := by
  refine h.extend (e := .doWrite (.readLoop, []) frame) trivial ?_
  intro q' hproj
  have hq' : q'.doWrite (.readLoop, []) frame
      = { q' with writeQueue := q'.writeQueue ++ [frame], queued := q'.queued ++ [frame] } :=
    if_pos (hproj.isWriting.trans hw)
  refine ⟨_, congrArg some hq', ?_, hproj.isWriting, hproj.writers, ?_, hproj.written⟩
  · exact congrArg (· ++ [frame]) hproj.writeQueue
  · exact congrArg (· ++ [frame]) hproj.queued

/-- `do_write` with nobody in the loop. -/
theorem ReachedFrom.enterWriting (h : c.ReachedFrom q) (hw : c.isWriting = false) (frame : Bytes)
    (owner : Owner) (rest : List Effect) :
    ((c.push frame).enterWriting owner rest).ReachedFrom q := by
  refine h.extend (e := .doWrite (owner, rest) frame) trivial ?_
  intro q' hproj
  have hno : ¬ q'.isWriting = true := by
    rw [hproj.isWriting, hw]
    exact Bool.false_ne_true
  have hfront : q'.writeQueue ++ [frame]
      = (c.writeQueue ++ [frame]).headD [] :: (q'.writeQueue ++ [frame]).tail := by
    rw [hproj.writeQueue]
    cases c.writeQueue with
    | nil => rfl
    | cons buf queue => rfl
  refine ⟨_, rfl, ?_⟩
  have hq' : q'.doWrite (owner, rest) frame = WriteQueue.loop (owner, rest) { q' with
      writeQueue := q'.writeQueue ++ [frame], queued := q'.queued ++ [frame], isWriting := true } :=
    if_neg hno
  rw [hq', WriteQueue.loop_cons (owner, rest) hfront]
  refine ⟨?_, rfl, ?_, ?_, hproj.written⟩
  · exact congrArg (· ++ [frame]) hproj.writeQueue
  · show q'.writers ++ _ = (c.writers ++ [_]).map _
    rw [hproj.writers, List.map_append]
    rfl
  · exact congrArg (· ++ [frame]) hproj.queued

/-- **A coroutine** calls `do_write` only. -/
theorem keeps_reachedFrom (app : App) (q : WriteQueue Coroutine) :
    Keeps app (fun _ => True) (fun c => c.ReachedFrom q) where
  spawn _ h := h.of_eq rfl rfl rfl rfl rfl
  close {c} {closedAt} code reason _ h := by
    rcases close_cases app c closedAt code reason with ⟨-, heq⟩ | ⟨-, tasks, heq⟩
    · rwa [heq]
    · rw [heq]
      exact h.of_eq rfl rfl rfl rfl rfl
  onMessage _ _ h := h.of_eq rfl rfl rfl rfl rfl
  onClose _ _ _ h := h.of_eq rfl rfl rfl rfl rfl
  push frame hw h := h.push hw frame
  enterWriting frame owner rest hw _ h := h.enterWriting hw frame owner rest
  finish owner h := by
    cases owner with
    | task => exact h
    | readLoop => exact h.of_eq rfl rfl rfl rfl rfl

/-- The writer that the completion of a write is about. -/
theorem Projects.writer (h : c.Projects q) {k : ℕ} {w : Writer} (hw : c.writers[k]? = some w) :
    q.writeDone k = some (WriteQueue.loop (w.owner, w.rest) { q with
      written := q.written ++ [w.buf]
      writeQueue := q.writeQueue.tail
      writers := q.writers.eraseIdx k }) := by
  have hget : q.writers[k]? = some ((w.owner, w.rest), w.buf) := by
    rw [h.writers, List.getElem?_map, hw]
    rfl
  rw [WriteQueue.writeDone, hget]
  rfl

theorem Projects.eraseIdx (h : c.Projects q) (k : ℕ) : q.writers.eraseIdx k
    = (c.writers.eraseIdx k).map fun w => ((w.owner, w.rest), w.buf) := by
  rw [h.writers, List.eraseIdx_map]

/-- **Every step** of a connection, except the failure of a write, is a run of its write queue. -/
theorem refines_step {e : Event} (hok : ∀ k, e ≠ .writeFail k) (h : c.ReachedFrom q)
    (hstep : step app c e = some c') : c'.ReachedFrom q := by
  have hk := keeps_reachedFrom app q
  cases stepped_of_step hstep with
  | start hnot => exact hk.start (fun _ => h.of_eq rfl rfl rfl rfl rfl) fun _ => h
  | call k => exact hk.call k h
  | recv f hreading hopen => exact h.of_eq rfl rfl rfl rfl rfl
  | readError hreading => exact h.of_eq rfl rfl rfl rfl rfl
  | resume f hgot =>
    apply hk.runEffects .readLoop (fun _ _ => trivial) none
    exact h.of_eq rfl rfl rfl rfl rfl
  | runTask t tasks htasks =>
    apply hk.runEffects .task (fun _ _ => trivial) none
    exact h.of_eq rfl rfl rfl rfl rfl
  | writeLast k w hw hq =>
    -- the loop ends, and the coroutine goes on
    apply hk.runEffects w.owner (fun _ _ => trivial) (some w.queuedAt)
    refine h.extend (e := .writeDone k) trivial ?_
    intro q' hproj
    refine ⟨_, hproj.writer hw, ?_⟩
    have hempty : q'.writeQueue.tail = [] := by
      rw [hproj.writeQueue, hq]
    rw [WriteQueue.loop_nil _ hempty]
    refine ⟨hempty, rfl, hproj.eraseIdx k, hproj.queued, ?_⟩
    exact congrArg (· ++ [w.buf]) hproj.written
  | writeNext k w buf queue hw hq =>
    refine h.extend (e := .writeDone k) trivial ?_
    intro q' hproj
    refine ⟨_, hproj.writer hw, ?_⟩
    have hnext : q'.writeQueue.tail = buf :: queue := by
      rw [hproj.writeQueue, hq]
    rw [WriteQueue.loop_cons _ hnext]
    refine ⟨hnext, hproj.isWriting, ?_, hproj.queued, ?_⟩
    · show q'.writers.eraseIdx k ++ [((w.owner, w.rest), buf)] = _
      rw [hproj.eraseIdx k, List.map_append]
      rfl
    · exact congrArg (· ++ [w.buf]) hproj.written
  | writeFail k w hw => exact absurd rfl (hok k)

/-- The `WebSocket` as it is constructed. -/
theorem reachedFrom_empty : Conn.ReachedFrom {} {} :=
  Projects.reachedFrom ⟨rfl, rfl, rfl, rfl, rfl⟩

/-- **The writes of a WebSocket** are a run of its write queue. -/
theorem refines_run {es : List Event} (hok : ∀ e ∈ es, ∀ k, e ≠ .writeFail k)
    (hrun : run (step app) {} es = some c) : c.ReachedFrom {} :=
  guarded_invariant (fun h hok hstep => refines_step hok h hstep) reachedFrom_empty
    ((guarded_iff_forall hrun).mpr hok) hrun

/-- The invariant of the write queue, where it can lead. -/
theorem ReachedFrom.inv (h : c.ReachedFrom {}) : ∃ q : WriteQueue Coroutine,
    c.Projects q ∧ q.Inv := by
  obtain ⟨es, q, hok, hrun, hproj⟩ := h
  refine ⟨q, hproj, ?_⟩
  exact guarded_invariant (fun h hok hstep => h.step hok hstep) WriteQueue.Inv.initial
    ((guarded_iff_forall hrun).mpr hok) hrun

/-- What has been queued has been written or is in the queue, and there is one writer at most, with
the front of the queue. -/
structure InOrder (c : Conn) : Prop where
  queued : c.queued = c.written ++ c.writeQueue
  writer : c.writers = [] ∧ c.writeQueue = [] ∨
    ∃ w queue, c.writers = [w] ∧ c.writeQueue = w.buf :: queue

theorem ReachedFrom.inOrder (h : c.ReachedFrom {}) : c.InOrder := by
  obtain ⟨q, hproj, hinv⟩ := h.inv
  constructor
  · rw [← hproj.queued, ← hproj.written, ← hproj.writeQueue]
    exact hinv.queued
  · rw [← hproj.writeQueue]
    rcases hinv.writer with ⟨-, hnone, hempty⟩ | ⟨-, who, buf, queue, hone, hqueue⟩
    · rw [hproj.writers] at hnone
      exact Or.inl ⟨List.map_eq_nil_iff.mp hnone, hempty⟩
    · rw [hproj.writers] at hone
      obtain ⟨w, hw, heq⟩ := List.map_eq_singleton_iff.mp hone
      obtain ⟨-, rfl⟩ := Prod.mk.inj heq
      exact Or.inr ⟨w, queue, hw, hqueue⟩

/-- **A WebSocket** writes its frames in the order in which they are queued, one at a time. -/
theorem inOrder_run {es : List Event} (hok : ∀ e ∈ es, ∀ k, e ≠ .writeFail k)
    (hrun : run (step app) {} es = some c) : c.InOrder :=
  (refines_run hok hrun).inOrder

end Conn

end WebSocketsLib
