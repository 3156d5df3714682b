import WebSocketsLib.WebSocket.Equiv.Accepted
import WebSocketsLib.WebSocket.Equiv.GracefulClose
import WebSocketsLib.WebSocket.Equiv.Received

/-!
# Connections that end

Who closes a connection first sends a Close frame, and calls `close` when `do_write` returns.  As
long as no read and no write fails, a connection that has got so far is `Ending`.

* `Ends.step`: each `close_async` waits in the strand until the connection is ending.
* `Announced.step`: if the application never calls `close` itself, a connection that is ending has
  queued a Close frame.
-/

namespace WebSocketsLib

/-- An application that closes its connections with `close_async` only. -/
def App.NeverCloses (app : App) : Prop :=
  ∀ trace code reason, .close code reason ∉ app.react trace

namespace Conn

variable {app : App} {c c' : Conn} {spawned : List Task}

/-- It is closed, or the coroutine inside the writing loop is going to close it. -/
def Ending (c : Conn) : Prop :=
  c.state = .wsClosed ∨ ∃ w ∈ c.writers, ∃ code reason, w.rest = [.close code reason]

theorem Ending.closed (h : c.Ending) (hwriters : c.writers = []) : c.state = .wsClosed := by
  rcases h with hclosed | ⟨w, hw, -⟩
  · exact hclosed
  · rw [hwriters] at hw
    exact absurd hw List.not_mem_nil

theorem Ending.of_eq (h : c.Ending) (hstate : c'.state = c.state)
    (hwriters : c'.writers = c.writers) : c'.Ending := by
  unfold Ending
  rw [hstate, hwriters]
  exact h

/-! ### Coroutines -/

/-- A coroutine does not take back what another has begun. -/
theorem Ending.runEffects (h : c.Ending) (app : App) (owner : Owner) (effects : List Effect)
    (q : Option ℕ) : (runEffects app owner effects q c).Ending := by
  rcases h with hclosed | ⟨w, hw, hrest⟩
  · exact Or.inl (runEffects_closed app owner effects q hclosed)
  · right
    cases ran_runEffects app owner effects q c with
    | finished hwriters hloop hreceived hclosed =>
      rw [hwriters]
      exact ⟨w, hw, hrest⟩
    | suspended before frame rest w' heffects hwriters howner hrest' hloop hreceived =>
      rw [hwriters]
      exact ⟨w, List.mem_append_left _ hw, hrest⟩

/-- **A coroutine that closes the connection.** -/
theorem ending_runEffects {effects : List Effect} (h : ReadStream.Closing effects) (app : App)
    (owner : Owner) (q : Option ℕ) (c : Conn) : (runEffects app owner effects q c).Ending := by
  cases ran_runEffects app owner effects q c with
  | finished hwriters hloop hreceived hclosed => exact Or.inl (hclosed h.close_mem)
  | suspended before frame rest w heffects hwriters howner hrest hloop hreceived =>
    right
    have hclose : ∃ code reason, rest = [.close code reason] := by
      obtain ⟨code, reason, rfl | ⟨frame', rfl⟩⟩ := h
      · rcases List.cons_eq_append_iff.mp heffects with ⟨-, hno⟩ | ⟨before', -, hno⟩
        · cases hno
        · exact absurd hno.symm (List.append_ne_nil_of_right_ne_nil _ (List.cons_ne_nil _ _))
      · rcases List.cons_eq_append_iff.mp heffects with ⟨-, heq⟩ | ⟨before', -, heq⟩
        · exact ⟨code, reason, (List.cons.inj heq).2⟩
        · rcases List.cons_eq_append_iff.mp heq with ⟨-, hno⟩ | ⟨before'', -, hno⟩
          · cases hno
          · exact absurd hno.symm (List.append_ne_nil_of_right_ne_nil _ (List.cons_ne_nil _ _))
    refine ⟨w, ?_, ?_⟩
    · rw [hwriters]
      exact List.mem_append_right _ (List.mem_singleton_self w)
    · rw [hrest]
      exact hclose

/-- **Every step** in which nothing fails. -/
theorem Ending.step (h : c.Ending) (hqueue : c.Queueing) {e : Event} (hfails : e.fails = false)
    (hstep : step app c e = some c') : c'.Ending := by
  cases stepped_of_step hstep with
  | start hnot =>
    rcases h with hclosed | ⟨w, hw, hrest⟩
    · left
      exact (keeps_shutdown app c.shutdown).start (fun _ => ⟨hclosed, rfl⟩)
        (fun _ => ⟨hclosed, rfl⟩) |>.1
    · right
      rw [(sameQueue_start app c).writers]
      exact ⟨w, hw, hrest⟩
  | call k =>
    rcases h with hclosed | ⟨w, hw, hrest⟩
    · left
      exact (keeps_shutdown app c.shutdown).call k ⟨hclosed, rfl⟩ |>.1
    · right
      rw [(sameQueue_call app k c).writers]
      exact ⟨w, hw, hrest⟩
  | recv f hreading hopen => exact h.of_eq rfl rfl
  | readError hreading => cases hfails
  | resume f hgot =>
    have hfb : Ending { c with fb := (handleParsedFrame app.handlers f c.fb).1 } := h.of_eq rfl rfl
    exact hfb.runEffects app .readLoop _ none
  | runTask t tasks htasks =>
    have hrest : Ending { c with tasks } := h.of_eq rfl rfl
    exact hrest.runEffects app .task _ none
  | writeLast k w hw hq =>
    rcases h with hclosed | ⟨w', hw', code, reason, hclose⟩
    · exact Or.inl (runEffects_closed app w.owner w.rest _ hclosed)
    · -- the only coroutine in the writing loop
      rw [(hqueue.writing hw).1] at hw'
      obtain rfl := List.mem_singleton.mp hw'
      rw [hclose]
      exact ending_runEffects ⟨code, reason, Or.inl rfl⟩ app w'.owner _ _
  | writeNext k w buf queue hw hq =>
    rcases h with hclosed | ⟨w', hw', hclose⟩
    · exact Or.inl hclosed
    · right
      rw [(hqueue.writing hw).1] at hw'
      obtain rfl := List.mem_singleton.mp hw'
      exact ⟨{ w' with buf }, List.mem_append_right _ (List.mem_singleton_self _), hclose⟩
  | writeFail k w hw => cases hfails

/-! ### `close_async` -/

/-- The tasks of the strand wait until they are started. -/
theorem keeps_tasks (app : App) (tasks : List Task) :
    Keeps app (fun _ => True) (fun c => tasks <+: c.tasks) where
  spawn _ h := h.trans (List.prefix_append _ _)
  close {c q} code reason _ h := by
    obtain ⟨more, hspawns⟩ := spawns_close app q code reason c
    rw [hspawns.tasks]
    exact h.trans (List.prefix_append _ _)
  onMessage _ _ h := h
  onClose _ _ _ h := h
  push _ _ h := h
  enterWriting _ _ _ _ _ h := h
  finish {c} owner h := by
    cases owner with
    | task => exact h
    | readLoop => exact h

/-- Each `close_async` waits in the strand until the connection is ending. -/
def Ends (c : Conn) (spawned : List Task) : Prop :=
  ∀ code reason, .closeAsync code reason ∈ spawned →
    .closeAsync code reason ∈ c.tasks ∨ c.Ending

/-- **Every step** in which nothing fails. -/
theorem Ends.step (h : c.Ends spawned) (hqueue : c.Queueing) {e : Event} (hfails : e.fails = false)
    (hstep : step app c e = some c') :
    c'.Ends (spawned ++ c'.tasks.drop (c.waitingTasks e)) := by
  have hold : c.Ending → c'.Ending := fun hending => hending.step hqueue hfails hstep
  have hnew {n : ℕ} {tasks : List Task} (hn : n = tasks.length) (hfront : tasks <+: c'.tasks)
      (hrest : ∀ t ∈ c.tasks, t ∈ tasks ∨
        ((∃ code reason, t = .closeAsync code reason) → c'.Ending)) :
      c'.Ends (spawned ++ c'.tasks.drop n) := by
    intro code reason hmem
    rcases List.mem_append.mp hmem with hspawned | hmore
    · rcases h code reason hspawned with hwaiting | hending
      · rcases hrest _ hwaiting with htasks | hending
        · exact Or.inl (hfront.subset htasks)
        · exact Or.inr (hending ⟨code, reason, rfl⟩)
      · exact Or.inr (hold hending)
    · exact Or.inl (List.mem_of_mem_drop hmore)
  have hall (hfront : c.tasks <+: c'.tasks) :
      c'.Ends (spawned ++ c'.tasks.drop c.tasks.length) :=
    hnew rfl hfront fun t ht => Or.inl ht
  have hk := keeps_tasks app c.tasks
  cases stepped_of_step hstep with
  | start hnot => exact hall (hk.start (fun _ => List.prefix_rfl) fun _ => List.prefix_rfl)
  | call k => exact hall (hk.call k List.prefix_rfl)
  | recv f hreading hopen => exact hall List.prefix_rfl
  | readError hreading => cases hfails
  | resume f hgot =>
    apply hall
    exact hk.runEffects .readLoop (fun _ _ => trivial) none List.prefix_rfl
  | runTask t tasks htasks =>
    have hfront : tasks <+: (runEffects app .task (c.taskEffects t) none { c with tasks }).tasks :=
      (keeps_tasks app tasks).runEffects .task (fun _ _ => trivial) none List.prefix_rfl
    have hwaiting : c.waitingTasks .runTask = tasks.length := by
      show c.tasks.length - 1 = _
      rw [htasks]
      rfl
    refine hnew hwaiting hfront fun t' ht' => ?_
    rw [htasks] at ht'
    rcases List.mem_cons.mp ht' with rfl | hlater
    · right
      rintro ⟨code, reason, rfl⟩
      exact ending_runEffects ⟨code, reason, Or.inr ⟨_, rfl⟩⟩ app .task none _
    · exact Or.inl hlater
  | writeLast k w hw hq =>
    apply hall
    exact hk.runEffects w.owner (fun _ _ => trivial) _ List.prefix_rfl
  | writeNext k w buf queue hw hq => exact hall List.prefix_rfl
  | writeFail k w hw => cases hfails

theorem ends_empty : Ends {} [] :=
  fun _ _ hmem => absurd hmem List.not_mem_nil

/-! ### The Close frame -/

/-- No effect closes the connection. -/
def NoClose (effects : List Effect) : Prop :=
  ∀ e ∈ effects, ∀ code reason, e ≠ .close code reason

theorem NoClose.ne_close {effects : List Effect} (h : NoClose effects) (code : UInt16)
    (reason : Bytes) : effects ≠ [.close code reason] := by
  rintro rfl
  exact h _ (List.mem_singleton_self _) code reason rfl

/-- A callback in which the application does not call `close`. -/
theorem state_callback (hno : app.NeverCloses) (cb : Callback) (c : Conn) :
    (c.callback app cb).state = c.state := by
  have hcalls (ks : List Call) (hks : ∀ code reason, .close code reason ∉ ks) (c : Conn) :
      (ks.foldl (call app) c).state = c.state := by
    induction ks generalizing c with
    | nil => rfl
    | cons k ks ih =>
      have hone : (c.call app k).state = c.state := by
        cases k with
        | close code reason => exact absurd List.mem_cons_self (hks code reason)
        | closeAsync code reason => rfl
        | sendTextAsync payload | sendBinaryAsync payload =>
          rw [call]
          split_ifs
          · rfl
          · rfl
      rw [List.foldl_cons, ih fun code reason hmem => hks code reason (List.mem_cons_of_mem k hmem)]
      exact hone
  exact hcalls _ (hno (c.trace ++ [cb])) { c with trace := c.trace ++ [cb] }

theorem state_start (hno : app.NeverCloses) (c : Conn) : (c.start app).state = c.state := by
  unfold start
  dsimp only
  split_ifs
  · exact (finish_state .readLoop).trans (state_callback hno .onOpen c)
  · exact finish_state .readLoop

theorem state_runEffects (hno : app.NeverCloses) (owner : Owner) {effects : List Effect}
    (h : NoClose effects) (q : Option ℕ) (c : Conn) :
    (runEffects app owner effects q c).state = c.state := by
  induction effects generalizing q c with
  | nil => exact finish_state owner
  | cons e effects ih =>
    have hrest : NoClose effects := fun e he => h e (List.mem_cons_of_mem _ he)
    cases e with
    | doWrite frame =>
      rw [runEffects]
      split_ifs
      · exact ih hrest _ _
      · rfl
    | onMessage msg => exact (ih hrest q _).trans (state_callback hno _ c)
    | onClose code reason => exact (ih hrest q _).trans (state_callback hno _ c)
    | close code reason => exact absurd rfl (h _ List.mem_cons_self code reason)

/-- A frame that has been queued stays in `queued`. -/
theorem keeps_queued (app : App) (frames : List Bytes) :
    Keeps app (fun _ => True) (fun c => frames <+: c.queued) where
  spawn _ h := h
  close {c q} code reason _ h := by
    rw [(sameQueue_close app q code reason c).queued]
    exact h
  onMessage _ _ h := h
  onClose _ _ _ h := h
  push _ _ h := h.trans (List.prefix_append _ _)
  enterWriting _ _ _ _ _ h := h.trans (List.prefix_append _ _)
  finish {c} owner h := by
    cases owner with
    | task => exact h
    | readLoop => exact h

/-- Some Close frame has been queued. -/
def ClosePending (c : Conn) : Prop :=
  ∃ code reason, writeFrame (closeFrame code reason) ∈ c.queued

theorem ClosePending.mono (h : c.ClosePending) (hfront : c.queued <+: c'.queued) :
    c'.ClosePending := by
  obtain ⟨code, reason, hmem⟩ := h
  exact ⟨code, reason, hfront.subset hmem⟩

/-- **A connection that is ending has queued a Close frame.** -/
structure Announced (c : Conn) : Prop where
  rests : ∀ w ∈ c.writers, NoClose w.rest ∨ ∃ code reason, w.rest = [.close code reason]
  frame : c.Ending → c.ClosePending

theorem Announced.of_eq (h : c.Announced) (hstate : c'.state = c.state)
    (hqueue : SameQueue c c') : c'.Announced where
  rests := by
    rw [hqueue.writers]
    exact h.rests
  frame hending := by
    have hbefore : c.Ending := hending.of_eq hstate.symm hqueue.writers.symm
    apply (h.frame hbefore).mono
    rw [hqueue.queued]

/-- A coroutine that does not close the connection. -/
theorem Announced.runEffects (h : c.Announced) (hno : app.NeverCloses) (owner : Owner)
    {effects : List Effect} (heffects : NoClose effects) (q : Option ℕ) :
    (runEffects app owner effects q c).Announced := by
  have hqueued : c.queued <+: (Conn.runEffects app owner effects q c).queued :=
    (keeps_queued app c.queued).runEffects owner (fun _ _ => trivial) q List.prefix_rfl
  have hstate := state_runEffects hno owner heffects q c
  cases ran_runEffects app owner effects q c with
  | finished hwriters hloop hreceived hclosed =>
    constructor
    · rw [hwriters]
      exact h.rests
    · intro hending
      exact (h.frame (hending.of_eq hstate.symm hwriters.symm)).mono hqueued
  | suspended before frame rest w hsplit hwriters howner hrest hloop hreceived =>
    have hnone : NoClose w.rest := by
      rw [hrest]
      intro e he
      apply heffects e
      rw [hsplit]
      exact List.mem_append_right _ (List.mem_cons_of_mem _ he)
    constructor
    · rw [hwriters]
      exact List.forall_mem_append.mpr ⟨h.rests, List.forall_mem_singleton.mpr (Or.inl hnone)⟩
    · intro hending
      have hbefore : c.Ending := by
        rcases hending with hclosed | ⟨w', hw', code, reason, hclose⟩
        · exact Or.inl (hstate ▸ hclosed)
        · rw [hwriters] at hw'
          rcases List.mem_append.mp hw' with hold | hnew
          · exact Or.inr ⟨w', hold, code, reason, hclose⟩
          · rw [List.mem_singleton.mp hnew] at hclose
            exact absurd hclose (hnone.ne_close code reason)
      exact (h.frame hbefore).mono hqueued

/-- What is left of a coroutine that closes the connection. -/
theorem Announced.close (h : c.Announced) (hpending : c.ClosePending) (owner : Owner)
    (code : UInt16) (reason : Bytes) (q : Option ℕ) :
    (Conn.runEffects app owner [.close code reason] q c).Announced := by
  have hqueue : SameQueue c (Conn.runEffects app owner [.close code reason] q c) :=
    (sameQueue_close app q code reason c).trans (sameQueue_finish owner _)
  constructor
  · rw [hqueue.writers]
    exact h.rests
  · intro _
    apply hpending.mono
    rw [hqueue.queued]

/-- **A coroutine that closes the connection.** -/
theorem Announced.sendClose (h : c.Announced) (owner : Owner) (code : UInt16) (reason : Bytes)
    (q : Option ℕ) : (Conn.runEffects app owner
      (sendCloseWithReason code reason ++ [.close code reason]) q c).Announced := by
  have hpending : (c.push (writeFrame (closeFrame code reason))).ClosePending :=
    ⟨code, reason, List.mem_append_right _ (List.mem_singleton_self _)⟩
  show (Conn.runEffects app owner
    [.doWrite (writeFrame (closeFrame code reason)), .close code reason] q c).Announced
  rw [Conn.runEffects]
  split_ifs with hw
  · have hpushed : (c.push (writeFrame (closeFrame code reason))).Announced :=
      ⟨h.rests, fun _ => hpending⟩
    exact hpushed.close hpending owner code reason _
  · refine ⟨?_, fun _ => hpending⟩
    exact List.forall_mem_append.mpr
      ⟨h.rests, List.forall_mem_singleton.mpr (Or.inr ⟨code, reason, rfl⟩)⟩

/-- A frame closes the connection as `close_async` does, or does not close it. -/
theorem noClose_or_close (handlers : WsHandlers) (f : WsFrame) (fb : FrameBody) :
    NoClose (handleParsedFrame handlers f fb).2 ∨ ∃ code reason,
      (handleParsedFrame handlers f fb).2
        = sendCloseWithReason code reason ++ [.close code reason] := by
  by_cases hclose : f.opcode = wsClose ∧ f.fin = true
  · right
    obtain ⟨hop, hfin⟩ := hclose
    rw [handleParsedFrame, hop, hfin]
    exact handleCloseFrame_eq f.payloadData
  · exact Or.inl (noClose_effects handlers hclose)

/-- **Every step** in which nothing fails, if nobody calls `close`. -/
theorem Announced.step (h : c.Announced) (hno : app.NeverCloses) (hqueue : c.Queueing) {e : Event}
    (hfails : e.fails = false) (hcall : ∀ code reason, e ≠ .call (.close code reason))
    (hstep : step app c e = some c') : c'.Announced := by
  cases stepped_of_step hstep with
  | start hnot => exact h.of_eq (state_start hno c) (sameQueue_start app c)
  | call k =>
    refine h.of_eq ?_ (sameQueue_call app k c)
    cases k with
    | close code reason => exact absurd rfl (hcall code reason)
    | closeAsync code reason => rfl
    | sendTextAsync payload | sendBinaryAsync payload =>
      rw [Conn.call]
      split_ifs
      · rfl
      · rfl
  | recv f hreading hopen => exact h.of_eq rfl ⟨rfl, rfl, rfl, rfl⟩
  | readError hreading => cases hfails
  | resume f hgot =>
    have hfb : Announced { c with fb := (handleParsedFrame app.handlers f c.fb).1 } :=
      h.of_eq rfl ⟨rfl, rfl, rfl, rfl⟩
    rcases noClose_or_close app.handlers f c.fb with hnone | ⟨code, reason, heq⟩
    · exact hfb.runEffects hno .readLoop hnone none
    · rw [heq]
      exact hfb.sendClose .readLoop code reason none
  | runTask t tasks htasks =>
    have hrest : Announced { c with tasks } := h.of_eq rfl ⟨rfl, rfl, rfl, rfl⟩
    cases t with
    | closeAsync code reason => exact hrest.sendClose .task code reason none
    | sendText payload | sendBinary payload =>
      refine hrest.runEffects hno .task ?_ none
      intro e he
      unfold taskEffects at he
      dsimp only at he
      split_ifs at he
      · rw [List.mem_singleton.mp he]
        intro code reason hclose
        cases hclose
      · exact absurd he List.not_mem_nil
  | writeLast k w hw hq =>
    obtain ⟨hone, hnone⟩ := hqueue.writing hw
    have hlast : Announced { c with
        written := c.written ++ [w.buf]
        writeQueue := []
        writers := c.writers.eraseIdx k
        isWriting := false } := by
      constructor
      · dsimp only
        rw [hnone]
        exact fun _ hw' => absurd hw' List.not_mem_nil
      · intro hending
        exact h.frame (Or.inl (hending.closed hnone))
    have hmem : w ∈ c.writers := List.mem_of_getElem? hw
    rcases h.rests w hmem with hrest | ⟨code, reason, hrest⟩
    · exact hlast.runEffects hno w.owner hrest _
    · have hpending : c.ClosePending := h.frame (Or.inr ⟨w, hmem, code, reason, hrest⟩)
      rw [hrest]
      exact hlast.close hpending w.owner code reason _
  | writeNext k w buf queue hw hq =>
    obtain ⟨hone, hnone⟩ := hqueue.writing hw
    have hmem : w ∈ c.writers := List.mem_of_getElem? hw
    constructor
    · dsimp only
      rw [hnone]
      exact List.forall_mem_singleton.mpr (h.rests w hmem)
    · intro hending
      apply h.frame
      rcases hending with hclosed | ⟨w', hw', hclose⟩
      · exact Or.inl hclosed
      · dsimp only at hw'
        rw [hnone] at hw'
        rw [List.mem_singleton.mp hw'] at hclose
        exact Or.inr ⟨w, hmem, hclose⟩
  | writeFail k w hw => cases hfails

theorem announced_empty : Announced {} :=
  ⟨fun _ hw => absurd hw List.not_mem_nil, fun hending => by cases hending.closed rfl⟩

end Conn

end WebSocketsLib
