import WebSocketsLib.WebSocket.Equiv.CloseLast
import WebSocketsLib.WebSocket.Equiv.WriteQueue

/-!
# A failed write blocks the writer

`do_write` clears `is_writing_` behind its loop, which the exception of a failed write does not
reach.

`WriteQueue.unblocked_iff`: the state that a run leads to can write if and only if no write has
failed in it.  After a failed write nothing more is handed to the socket (`WriteQueue.blocked_run`).

`Conn.not_stuck_iff`: the same for a WebSocket, whose coroutines end with the exception unseen.
-/

namespace WebSocketsLib

open Runs

namespace WriteQueue

variable {ι : Type} {q q' : WriteQueue ι}

/-- `is_writing_` is set only with a coroutine in the writing loop, and what a later `do_write`
queues is handed to the socket, behind all that was queued before. -/
structure Unblocked (q : WriteQueue ι) : Prop where
  writer : q.isWriting = true → q.writers ≠ []
  later : ∀ who bytes, ∃ n q',
    run step (q.doWrite who bytes) (List.replicate n (.writeDone 0)) = some q' ∧
      q'.handed = q.queued ++ [bytes]

/-- `is_writing_` is set, and nobody is in the writing loop. -/
structure Blocked (q : WriteQueue ι) : Prop where
  isWriting : q.isWriting = true
  writers : q.writers = []

theorem Blocked.not_unblocked (h : q.Blocked) : ¬q.Unblocked :=
  fun hq => hq.writer h.isWriting h.writers

/-! ### Before a failure -/

theorem Inv.unblocked (h : Inv q) : q.Unblocked where
  writer hwriting := by
    rcases h.writer with ⟨hno, -, -⟩ | ⟨-, who, buf, queue, hwriters, -⟩
    · rw [hwriting] at hno
      cases hno
    · rw [hwriters]
      exact List.cons_ne_nil _ _
  later who bytes := by
    obtain ⟨q', hdrain, -, hhanded⟩ := (h.doWrite who bytes).drain_handed
    exact ⟨_, q', hdrain, hhanded.trans (doWrite_queued who bytes q)⟩

/-- The failed write is the only one. -/
theorem Inv.blocked (h : Inv q) {k : ℕ} (hstep : q.writeFail k = some q') : q'.Blocked := by
  obtain ⟨w, hw, hq'⟩ := Option.bind_eq_some_iff.mp hstep
  obtain ⟨hwriting, -, herase, -⟩ := h.writing hw
  obtain rfl := Option.some.inj hq'
  exact ⟨hwriting, herase⟩

/-! ### After a failure -/

/-- **A blocked queue** only grows. -/
theorem blocked_step {e : Event ι} (h : q.Blocked) (hstep : q.step e = some q') :
    q'.Blocked ∧ q'.handed = q.handed ∧ q'.writeQueue = q.writeQueue ++ calls [e] := by
  have hnone : ∀ k : ℕ, q.writers[k]? = none := by
    intro k
    rw [h.writers]
    rfl
  cases e with
  | doWrite who bytes =>
    have hq' : q.doWrite who bytes
        = { q with writeQueue := q.writeQueue ++ [bytes], queued := q.queued ++ [bytes] } :=
      if_pos h.isWriting
    obtain rfl := Option.some.inj hstep
    rw [hq']
    exact ⟨⟨h.isWriting, h.writers⟩, rfl, rfl⟩
  | writeDone k =>
    obtain ⟨w, hw, -⟩ := Option.bind_eq_some_iff.mp hstep
    rw [hnone k] at hw
    cases hw
  | writeFail k =>
    obtain ⟨w, hw, -⟩ := Option.bind_eq_some_iff.mp hstep
    rw [hnone k] at hw
    cases hw

/-- **For ever**: whatever happens to a blocked queue, nothing is handed to the socket. -/
theorem blocked_run {es : List (Event ι)} (h : q.Blocked) (hrun : run step q es = some q') :
    q'.Blocked ∧ q'.handed = q.handed ∧ q'.writeQueue = q.writeQueue ++ calls es := by
  induction es generalizing q with
  | nil =>
    obtain rfl : q = q' := Option.some.inj hrun
    exact ⟨h, rfl, (List.append_nil _).symm⟩
  | cons e es ih =>
    obtain ⟨q₁, hstep, hrest⟩ := run_cons_eq_some hrun
    obtain ⟨hblocked, hhanded, hqueue⟩ := blocked_step h hstep
    obtain ⟨hblocked', hhanded', hqueue'⟩ := ih hblocked hrest
    refine ⟨hblocked', hhanded'.trans hhanded, ?_⟩
    rw [hqueue', hqueue, calls_cons e es, List.append_assoc]

/-! ### The condition -/

/-- The invariant of the queue holds until a write fails. -/
theorem unblocked_step {e : Event ι} (h : q.Inv ∨ q.Blocked) (hstep : q.step e = some q') :
    (q'.Inv ∨ q'.Blocked) ∧ (q'.Unblocked ↔ q.Unblocked ∧ e.Succeeds) := by
  rcases h with hinv | hblocked
  · by_cases hok : e.Succeeds
    · have hinv' := hinv.step hok hstep
      exact ⟨Or.inl hinv', iff_of_true hinv'.unblocked ⟨hinv.unblocked, hok⟩⟩
    · cases e with
      | doWrite who bytes => exact absurd trivial hok
      | writeDone k => exact absurd trivial hok
      | writeFail k =>
        have hblocked := hinv.blocked hstep
        exact ⟨Or.inr hblocked, iff_of_false hblocked.not_unblocked fun h => hok h.2⟩
  · obtain ⟨hblocked', -, -⟩ := blocked_step hblocked hstep
    refine ⟨Or.inr hblocked', iff_of_false hblocked'.not_unblocked ?_⟩
    exact fun h => hblocked.not_unblocked h.1

/-- **A failed write blocks the writer for ever**, and nothing else does: the state that a run leads
to is unblocked if and only if no write has failed in it. -/
theorem unblocked_iff {es : List (Event ι)} (hrun : run step ({} : WriteQueue ι) es = some q) :
    q.Unblocked ↔ ∀ e ∈ es, e.Succeeds := by
  rw [run_iff_guarded unblocked_step (Or.inl Inv.initial) Inv.initial.unblocked hrun]
  exact guarded_iff_forall hrun

/-- Two coroutines, one of them behind the write of the other. -/
def twoCalls : List (Event ℕ) :=
  [.doWrite 1 [1], .doWrite 2 [2], .writeDone 0]

theorem unblocked_iff_twoCalls :
    ∃ q, run step {} twoCalls = some q ∧ q.isWriting = true ∧ q.Unblocked := by
  have hrun : run step {} twoCalls = some
      { writeQueue := [[2]], isWriting := true, writers := [(1, [2])], queued := [[1], [2]],
        handed := [[1], [2]], written := [[1]] } := by
    decide
  refine ⟨_, hrun, rfl, (unblocked_iff hrun).mpr ?_⟩
  simp [twoCalls, Event.Succeeds]

/-- The write of the only coroutine fails. -/
theorem not_unblocked_writeFail :
    ¬∀ (es : List (Event ℕ)) (q : WriteQueue ℕ), run step {} es = some q → q.Unblocked := by
  intro h
  have hunblocked := h [.doWrite 1 [1], .writeFail 0] _ rfl
  exact hunblocked.writer rfl rfl

end WriteQueue

/-! ### The writes of a WebSocket -/

namespace Conn

variable {app : App} {c c' : Conn}

/-- The failed write of a connection is the only one. -/
theorem ReachedFrom.stuck (h : c.ReachedFrom {}) {k : ℕ}
    (hstep : step app c (.writeFail k) = some c') : c'.Stuck := by
  obtain ⟨q, hproj, hinv⟩ := h.inv
  cases stepped_of_step hstep with
  | writeFail k w hw =>
    have hget : q.writers[k]? = some ((w.owner, w.rest), w.buf) := by
      rw [hproj.writers, List.getElem?_map, hw]
      rfl
    obtain ⟨hwriting, -, herase, -⟩ := hinv.writing hget
    rw [hproj.eraseIdx k, List.map_eq_nil_iff] at herase
    exact ⟨hproj.isWriting.symm.trans hwriting, herase⟩

theorem ReachedFrom.not_stuck (h : c.ReachedFrom {}) : ¬c.Stuck := by
  obtain ⟨q, hproj, hinv⟩ := h.inv
  rintro ⟨hwriting, hwriters⟩
  refine hinv.unblocked.writer (hproj.isWriting.trans hwriting) ?_
  rw [hproj.writers, hwriters, List.map_nil]

/-- Nothing gets a stuck connection to write. -/
theorem stuck_step {e : Event} (h : c.Stuck) (hstep : step app c e = some c') : c'.Stuck := by
  have hk := Outgoing.keeps_stuck app
  have hnone : ∀ {k : ℕ} {w : Writer}, c.writers[k]? ≠ some w := by
    intro k w hw
    rw [h.2] at hw
    cases hw
  cases stepped_of_step hstep with
  | start hnot => exact hk.start (fun _ => h) fun _ => h
  | call k => exact hk.call k h
  | recv f hreading hopen => exact h
  | readError hreading => exact h
  | resume f hgot => exact hk.runEffects .readLoop (fun _ _ => trivial) none h
  | runTask t tasks htasks => exact hk.runEffects .task (fun _ _ => trivial) none h
  | writeLast k w hw hq => exact absurd hw hnone
  | writeNext k w buf queue hw hq => exact absurd hw hnone
  | writeFail k w hw => exact absurd hw hnone

/-- **The writer of a WebSocket** is stuck after a run if and only if a write has failed in it. -/
theorem not_stuck_iff {es : List Event} (hrun : run (step app) {} es = some c) :
    ¬c.Stuck ↔ ∀ e ∈ es, ∀ k, e ≠ .writeFail k := by
  have hstep : ∀ {c e c'}, c.ReachedFrom {} ∨ c.Stuck → step app c e = some c' →
      (c'.ReachedFrom {} ∨ c'.Stuck) ∧ (¬c'.Stuck ↔ ¬c.Stuck ∧ ∀ k, e ≠ .writeFail k) := by
    rintro c e c' (hreached | hstuck) hc'
    · by_cases hfail : ∃ k, e = .writeFail k
      · obtain ⟨k, rfl⟩ := hfail
        have hstuck := hreached.stuck hc'
        exact ⟨Or.inr hstuck, iff_of_false (not_not_intro hstuck) fun h => h.2 k rfl⟩
      · rw [not_exists] at hfail
        have hreached' := refines_step hfail hreached hc'
        exact ⟨Or.inl hreached', iff_of_true hreached'.not_stuck ⟨hreached.not_stuck, hfail⟩⟩
    · have hstuck' := stuck_step hstuck hc'
      exact ⟨Or.inr hstuck', iff_of_false (not_not_intro hstuck') fun h => h.1 hstuck⟩
  rw [run_iff_guarded hstep (Or.inl reachedFrom_empty) reachedFrom_empty.not_stuck hrun]
  exact guarded_iff_forall hrun

end Conn

end WebSocketsLib
