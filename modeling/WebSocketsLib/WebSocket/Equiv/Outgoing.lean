import WebSocketsLib.WebSocket.Equiv.CloseLast

/-!
# The outgoing stream in every run

What a connection has handed to its socket are the first of the buffers that it has queued, in
every run (`Outgoing.handed_prefix`): failed writes only stop the stream.
-/

namespace WebSocketsLib

open Runs

namespace Outgoing

variable {app : App} {c c' : Conn} {o o' : Outgoing} {n : ℕ} {handed : List Bytes}

/-- What a coroutine keeps that begins a write behind `n` outstanding ones: the buffers handed to
the socket, those of the new writers included, are the first of the queued ones. -/
structure Handing (n : ℕ) (handed : List Bytes) (c : Conn) : Prop where
  outstanding : n ≤ c.writers.length
  queue : c.Stuck ∨ Live c (handed ++ (c.writers.drop n).map Writer.buf)
  front : handed ++ (c.writers.drop n).map Writer.buf <+: c.queued

theorem Live.front (h : Live c handed) : handed <+: c.queued := by
  rcases h with ⟨-, -, -, hqueued⟩ | ⟨-, w, queue, -, -, hqueued⟩
  · simp only [hqueued, List.prefix_rfl]
  · rw [hqueued]
    exact List.prefix_append handed queue

theorem Handing.of_live (hn : n ≤ c.writers.length)
    (h : Live c (handed ++ (c.writers.drop n).map Writer.buf)) : Handing n handed c :=
  ⟨hn, Or.inr h, h.front⟩

theorem Handing.sameQueue (h : Handing n handed c) (hsame : Conn.SameQueue c c') :
    Handing n handed c' := by
  obtain ⟨hqueue, hwriting, hwriters, hqueued⟩ := hsame
  refine ⟨?_, ?_, ?_⟩
  · rw [hwriters]
    exact h.outstanding
  · unfold Conn.Stuck Live
    rw [hqueue, hwriting, hwriters, hqueued]
    exact h.queue
  · rw [hwriters, hqueued]
    exact h.front

theorem keeps_handing (app : App) (n : ℕ) (handed : List Bytes) :
    Conn.Keeps app (fun _ => True) (Handing n handed) where
  spawn _ h := ⟨h.outstanding, h.queue, h.front⟩
  close {c} {q} code reason _ h := h.sameQueue (Conn.sameQueue_close app q code reason c)
  onMessage _ _ h := ⟨h.outstanding, h.queue, h.front⟩
  onClose _ _ _ h := ⟨h.outstanding, h.queue, h.front⟩
  push {c} frame hw h := by
    refine ⟨h.outstanding, ?_, h.front.trans (List.prefix_append c.queued [frame])⟩
    rcases h.queue with hstuck | ⟨hidle, -⟩ | ⟨-, w, queue, hws, hq, hqd⟩
    · exact Or.inl hstuck
    · exact absurd (hidle.symm.trans hw) Bool.false_ne_true
    · refine Or.inr (Or.inr ⟨hw, w, queue ++ [frame], hws, ?_, ?_⟩)
      · show c.writeQueue ++ [frame] = _
        rw [hq, List.cons_append]
      · show c.queued ++ [frame] = _
        rw [hqd, List.append_assoc]
        rfl
  enterWriting {c} frame owner rest hw _ h := by
    -- the queue is empty and nobody is writing, so the new writer takes the frame
    rcases h.queue with hstuck | ⟨-, hws, hq, hqd⟩ | ⟨hbusy, -⟩
    · exact absurd (hw.symm.trans hstuck.1) Bool.false_ne_true
    · have hn : n = 0 := by
        have hle := h.outstanding
        rw [hws] at hle
        exact Nat.le_zero.mp hle
      have hhanded : c.queued = handed := by
        rw [hqd, hws, List.drop_nil, List.map_nil, List.append_nil]
      have hwriters : ((c.push frame).enterWriting owner rest).writers
          = [{ owner, buf := frame, rest, queuedAt := (c.push frame).queued.length }] := by
        show c.writers ++ [_] = _
        rw [hws, List.nil_append]
        show [Writer.mk owner ((c.writeQueue ++ [frame]).headD []) rest _] = _
        rw [hq]
        rfl
      have hqueue : ((c.push frame).enterWriting owner rest).writeQueue = [frame] := by
        show c.writeQueue ++ [frame] = [frame]
        rw [hq, List.nil_append]
      apply Handing.of_live
      · rw [hn]
        exact Nat.zero_le _
      · refine Or.inr ⟨rfl, _, [], hwriters, hqueue, ?_⟩
        show c.queued ++ [frame] = _
        rw [hwriters, hn, hhanded, List.append_nil]
        rfl
    · exact absurd (hw.symm.trans hbusy) Bool.false_ne_true
  finish {c} owner h := h.sameQueue (Conn.sameQueue_finish owner c)

/-- The state of the outgoing side in every run. -/
abbrev Fifo (o : Outgoing) : Prop :=
  Handing o.conn.writers.length o.handed o.conn

theorem Fifo.live (h : o.Fifo) : o.conn.Stuck ∨ Live o.conn o.handed := by
  have hqueue := h.queue
  rwa [List.drop_length, List.map_nil, List.append_nil] at hqueue

theorem Fifo.of_handing (h : Handing n handed c) :
    Fifo { conn := c, handed := handed ++ (c.writers.drop n).map Writer.buf } := by
  refine ⟨Nat.le_refl _, ?_, ?_⟩
  · show c.Stuck ∨ Live c (_ ++ (c.writers.drop c.writers.length).map Writer.buf)
    rw [List.drop_length, List.map_nil, List.append_nil]
    exact h.queue
  · show _ ++ (c.writers.drop c.writers.length).map Writer.buf <+: _
    rw [List.drop_length, List.map_nil, List.append_nil]
    exact h.front

/-- Whoever ends a write was the only one writing. -/
theorem Fifo.writing (h : o.Fifo) {k : ℕ} {w : Writer} (hw : o.conn.writers[k]? = some w) :
    o.conn.isWriting = true ∧ o.conn.writers = [w] ∧ o.conn.writers.eraseIdx k = [] ∧
      ∃ queue, o.conn.writeQueue = w.buf :: queue ∧ o.conn.queued = o.handed ++ queue := by
  have hlt : k < o.conn.writers.length := (List.getElem?_eq_some_iff.mp hw).1
  rcases h.live with ⟨-, hnone⟩ | ⟨-, hnone, -⟩ | ⟨hbusy, w', queue, hone, hq, hqd⟩
  · rw [hnone] at hlt
    exact absurd hlt (Nat.not_lt_zero k)
  · rw [hnone] at hlt
    exact absurd hlt (Nat.not_lt_zero k)
  · rw [hone] at hw hlt
    obtain rfl : k = 0 := Nat.lt_one_iff.mp hlt
    obtain rfl := Option.some.inj hw
    rw [hone]
    exact ⟨hbusy, rfl, rfl, queue, hq, hqd⟩

/-- **Every step** hands the next of the queued buffers to the socket, or none. -/
theorem fifo_step {e : Conn.Event} (h : o.Fifo) (hstep : o.step app e = some o') : o'.Fifo := by
  obtain ⟨c', hconn, rfl⟩ := Option.map_eq_some_iff.mp hstep
  apply Fifo.of_handing
  have hk := keeps_handing app o.conn.writers.length o.handed
  cases Conn.stepped_of_step hconn with
  | start hnot => exact hk.start (fun _ => ⟨h.outstanding, h.queue, h.front⟩) fun _ => h
  | call k => exact hk.call k h
  | recv f hreading hopen => exact ⟨h.outstanding, h.queue, h.front⟩
  | readError hreading => exact ⟨h.outstanding, h.queue, h.front⟩
  | resume f hgot =>
    apply hk.runEffects .readLoop (fun _ _ => trivial) none
    exact ⟨h.outstanding, h.queue, h.front⟩
  | runTask t tasks htasks =>
    apply hk.runEffects .task (fun _ _ => trivial) none
    exact ⟨h.outstanding, h.queue, h.front⟩
  | writeLast k w hw hq =>
    obtain ⟨-, hone, hrest, queue, hqueue, hqueued⟩ := h.writing hw
    have hn : outstanding o.conn (.writeDone k) = 0 := by
      unfold outstanding
      rw [hone]
      rfl
    rw [hqueue] at hq
    obtain rfl : queue = [] := hq
    rw [hn]
    apply (keeps_handing app 0 o.handed).runEffects w.owner (fun _ _ => trivial)
    apply Handing.of_live (Nat.zero_le _)
    refine Or.inl ⟨rfl, hrest, rfl, ?_⟩
    show o.conn.queued = o.handed ++ (o.conn.writers.eraseIdx k).map Writer.buf
    rw [hrest, hqueued, List.map_nil]
  | writeNext k w buf queue hw hq =>
    obtain ⟨hbusy, hone, hrest, queue', hqueue, hqueued⟩ := h.writing hw
    have hn : outstanding o.conn (.writeDone k) = 0 := by
      unfold outstanding
      rw [hone]
      rfl
    rw [hqueue] at hq
    obtain rfl : queue' = buf :: queue := hq
    rw [hn]
    apply Handing.of_live (Nat.zero_le _)
    refine Or.inr ⟨hbusy, { w with buf }, queue, ?_, rfl, ?_⟩
    · show o.conn.writers.eraseIdx k ++ [_] = _
      rw [hrest]
      rfl
    · show o.conn.queued = o.handed ++ (o.conn.writers.eraseIdx k ++ [_]).map Writer.buf ++ queue
      rw [hrest, hqueued, List.append_assoc]
      rfl
  | writeFail k w hw =>
    obtain ⟨hbusy, hone, hrest, queue, hqueue, hqueued⟩ := h.writing hw
    refine ⟨?_, Or.inl ⟨hbusy, hrest⟩, ?_⟩
    · show outstanding o.conn (.writeFail k) ≤ (o.conn.writers.eraseIdx k).length
      unfold outstanding
      rw [hrest, hone]
      exact Nat.le_refl 0
    · show o.handed ++ ((o.conn.writers.eraseIdx k).drop _).map Writer.buf <+: o.conn.queued
      rw [hrest, List.drop_nil, List.map_nil, List.append_nil, hqueued]
      exact List.prefix_append o.handed queue

/-- The `WebSocket` as it is constructed has handed nothing to its socket. -/
theorem fifo_empty : Fifo {} :=
  Handing.of_live (Nat.zero_le _) (Or.inl ⟨rfl, rfl, rfl, rfl⟩)

/-- **First queued, first handed to the socket**, in every run. -/
theorem handed_prefix {es : List Conn.Event} (hrun : run (step app) {} es = some o) :
    o.handed <+: o.conn.queued := by
  have h : o.Fifo := run_invariant fifo_step fifo_empty hrun
  have hfront := h.front
  rwa [List.drop_length, List.map_nil, List.append_nil] at hfront

end Outgoing

/-! ### As long as no read and no write fails -/

namespace Conn

variable {app : App} {c c' : Conn}

/-- What a connection keeps until a read or a write fails. -/
structure Alive (c : Conn) : Prop where
  threw : c.readLoop ≠ .threw
  returned : c.readLoop = .returned → c.state = .wsClosed
  writing : c.isWriting = true → c.writers ≠ []

/-- Whether the event is a read or a write that fails. -/
def Event.fails : Event → Bool
  | .readError => true
  | .writeFail _ => true
  | _ => false

theorem keeps_alive (app : App) : Keeps app (fun _ => True) Alive where
  spawn _ h := ⟨h.threw, h.returned, h.writing⟩
  close {c} {q} code reason _ h := by
    rcases close_cases app c q code reason with ⟨-, heq⟩ | ⟨-, tasks, heq⟩
    · rwa [heq]
    · rw [heq]
      exact ⟨h.threw, fun _ => rfl, h.writing⟩
  onMessage _ _ h := ⟨h.threw, h.returned, h.writing⟩
  onClose _ _ _ h := ⟨h.threw, h.returned, h.writing⟩
  push _ _ h := ⟨h.threw, h.returned, h.writing⟩
  enterWriting {c} frame owner rest _ _ h := by
    refine ⟨?_, ?_, fun _ => List.append_ne_nil_of_right_ne_nil _ (List.cons_ne_nil _ _)⟩
    · cases owner with
      | readLoop => exact nofun
      | task => exact h.threw
    · cases owner with
      | readLoop => exact nofun
      | task => exact h.returned
  finish {c} owner h := by
    cases owner with
    | task => exact h
    | readLoop =>
      cases hstate : c.state with
      | wsOpen =>
        have hloop : (c.finish .readLoop).readLoop = .reading := if_pos hstate
        refine ⟨?_, ?_, h.writing⟩
        · rw [hloop]
          exact nofun
        · rw [hloop]
          exact nofun
      | wsClosed =>
        have hloop : (c.finish .readLoop).readLoop = .returned :=
          if_neg (by rw [hstate]; exact nofun)
        refine ⟨?_, fun _ => hstate, h.writing⟩
        rw [hloop]
        exact nofun

/-- **Every step** in which nothing fails. -/
theorem alive_step {e : Event} (h : c.Alive) (hfails : e.fails = false)
    (hstep : step app c e = some c') : c'.Alive := by
  have hk := keeps_alive app
  cases stepped_of_step hstep with
  | start hnot => exact hk.start (fun _ => ⟨h.threw, h.returned, h.writing⟩) fun _ => h
  | call k => exact hk.call k h
  | recv f hreading hopen => exact ⟨nofun, nofun, h.writing⟩
  | readError hreading => cases hfails
  | resume f hgot =>
    exact hk.runEffects .readLoop (fun _ _ => trivial) none ⟨h.threw, h.returned, h.writing⟩
  | runTask t tasks htasks =>
    exact hk.runEffects .task (fun _ _ => trivial) none ⟨h.threw, h.returned, h.writing⟩
  | writeLast k w hw hq =>
    exact hk.runEffects w.owner (fun _ _ => trivial) _ ⟨h.threw, h.returned, nofun⟩
  | writeNext k w buf queue hw hq =>
    exact ⟨h.threw, h.returned,
      fun _ => List.append_ne_nil_of_right_ne_nil _ (List.cons_ne_nil _ _)⟩
  | writeFail k w hw => cases hfails

theorem alive_empty : Alive {} :=
  ⟨ReadLoop.noConfusion, ReadLoop.noConfusion, Bool.noConfusion⟩

end Conn

/-- **Nothing is stuck** in the queue when no write is outstanding and none has failed. -/
theorem Outgoing.Fifo.queued_eq {o : Outgoing} (h : o.Fifo) (halive : o.conn.Alive)
    (hwriters : o.conn.writers = []) : o.conn.queued = o.handed := by
  rcases h.live with ⟨hwriting, hnone⟩ | ⟨-, -, -, hqueued⟩ | ⟨hwriting, w, queue, hone, -, -⟩
  · exact absurd hnone (halive.writing hwriting)
  · exact hqueued
  · rw [hwriters] at hone
    cases hone

end WebSocketsLib
