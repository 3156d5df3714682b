import WebSocketsLib.WebSocket.Connection
import WebSocketsLib.WebSocket.Equiv.ParsedFrame

/-!
# What the coroutines of a WebSocket preserve

`Stepped` says once what each event does to a connection; the invariants of the other modules are
proved by cases on it.

A property of the connection that survives the elementary operations of its coroutines (`Keeps`)
survives a callback with everything the application calls from inside it, and a coroutine's run to
its next suspension.
-/

namespace WebSocketsLib

namespace Conn

variable {app : App} {c c' c'' : Conn}

/-! ### `close` -/

theorem close_of_closed (h : c.state = .wsClosed) (q : Option ℕ) (code : UInt16) (reason : Bytes) :
    c.close app q code reason = c := by
  rw [close, h]

/-- The tasks that calls spawn while `state_` is `WS_CLOSED`. -/
def closedTasks (ks : List Call) : List Task :=
  ks.filterMap fun
    | .closeAsync code reason => some (.closeAsync code reason)
    | _ => none

theorem foldl_callClosed (ks : List Call) (c : Conn) :
    ks.foldl callClosed c = { c with tasks := c.tasks ++ closedTasks ks } := by
  induction ks generalizing c with
  | nil => simp [closedTasks]
  | cons k ks ih =>
    rw [List.foldl_cons, ih]
    cases k <;> simp [callClosed, spawn, closedTasks]

/-- The one `close` that finds the connection open. -/
theorem close_of_open (app : App) {c : Conn} (h : c.state = .wsOpen) (q : Option ℕ)
    (code : UInt16) (reason : Bytes) :
    ∃ tasks, c.close app q code reason = { c with
      state := .wsClosed
      shutdown := some { closeQueuedAt := q, queued := c.queued, written := c.written }
      trace := c.trace ++ if app.handlers.onClose then [.onClose code reason] else []
      tasks
      cleanedUp := true } := by
  rw [close, h]
  dsimp only
  by_cases hinstalled : app.handlers.onClose = true
  · rw [if_pos hinstalled, foldl_callClosed, if_pos hinstalled]
    exact ⟨_, rfl⟩
  · rw [if_neg hinstalled, if_neg hinstalled, List.append_nil]
    exact ⟨_, rfl⟩

/-- **What `close` does**: nothing, or what the one that finds the connection open does. -/
theorem close_cases (app : App) (c : Conn) (q : Option ℕ) (code : UInt16) (reason : Bytes) :
    c.state = .wsClosed ∧ c.close app q code reason = c ∨
      c.state = .wsOpen ∧ ∃ tasks, c.close app q code reason = { c with
        state := .wsClosed
        shutdown := some { closeQueuedAt := q, queued := c.queued, written := c.written }
        trace := c.trace ++ if app.handlers.onClose then [.onClose code reason] else []
        tasks
        cleanedUp := true } := by
  cases hs : c.state with
  | wsClosed => exact Or.inl ⟨rfl, close_of_closed hs q code reason⟩
  | wsOpen => exact Or.inr ⟨rfl, close_of_open app hs q code reason⟩

@[simp]
theorem close_state (q : Option ℕ) (code : UInt16) (reason : Bytes) :
    (c.close app q code reason).state = .wsClosed := by
  rcases close_cases app c q code reason with ⟨hclosed, heq⟩ | ⟨-, tasks, heq⟩
  · rwa [heq]
  · rw [heq]

theorem close_shutdown (app : App) {c : Conn} (h : c.state = .wsOpen) (q : Option ℕ)
    (code : UInt16) (reason : Bytes) :
    (c.close app q code reason).shutdown
      = some { closeQueuedAt := q, queued := c.queued, written := c.written } := by
  obtain ⟨tasks, heq⟩ := close_of_open app h q code reason
  rw [heq]

@[simp]
theorem finish_state (owner : Owner) : (c.finish owner).state = c.state := by
  cases owner <;> rfl

@[simp]
theorem finish_shutdown (owner : Owner) : (c.finish owner).shutdown = c.shutdown := by
  cases owner <;> rfl

/-- What holds of the effects of a graceful close, and of the frames that are sent, holds of all
effects of a task. -/
theorem forall_taskEffects {Q : Effect → Prop} (c : Conn)
    (hclose : ∀ code reason, ∀ e ∈ sendCloseWithReason code reason ++ [.close code reason], Q e)
    (hsend : ∀ opcode payload, opcode = wsText ∨ opcode = wsBinary →
      Q (.doWrite (writeFrame (dataFrame opcode payload)))) (t : Task) :
    ∀ e ∈ c.taskEffects t, Q e := by
  cases t with
  | closeAsync code reason => exact hclose code reason
  | sendText payload =>
    unfold taskEffects
    split_ifs
    · exact List.forall_mem_singleton.mpr (hsend wsText payload (Or.inl rfl))
    · exact fun _ he => absurd he List.not_mem_nil
  | sendBinary payload =>
    unfold taskEffects
    split_ifs
    · exact List.forall_mem_singleton.mpr (hsend wsBinary payload (Or.inr rfl))
    · exact fun _ he => absurd he List.not_mem_nil

/-! ### Preserved properties -/

/-- `P` survives the elementary operations of a coroutine whose effects all satisfy `Q`. -/
structure Keeps (app : App) (Q : Effect → Prop) (P : Conn → Prop) : Prop where
  spawn : ∀ {c} t, P c → P (c.spawn t)
  close : ∀ {c q} code reason, q = none ∨ Q (.close code reason) → P c →
    P (c.close app q code reason)
  onMessage : ∀ {c} msg, Q (.onMessage msg) → P c →
    P { c with trace := c.trace ++ [.onMessage msg] }
  onClose : ∀ {c} code reason, Q (.onClose code reason) → P c →
    P { c with trace := c.trace ++ [.onClose code reason] }
  push : ∀ {c} frame, c.isWriting = true → P c → P (c.push frame)
  enterWriting : ∀ {c} frame owner rest, c.isWriting = false → (∀ e ∈ rest, Q e) → P c →
    P ((c.push frame).enterWriting owner rest)
  finish : ∀ {c} owner, P c → P (c.finish owner)

namespace Keeps

variable {Q : Effect → Prop} {P : Conn → Prop}

theorem call (h : Keeps app Q P) (k : Call) (hc : P c) : P (c.call app k) := by
  cases k with
  | close code reason => exact h.close code reason (Or.inl rfl) hc
  | closeAsync code reason => exact h.spawn _ hc
  | sendTextAsync payload | sendBinaryAsync payload =>
    rw [Conn.call]
    split_ifs
    · exact h.spawn _ hc
    · exact hc

theorem foldl_call (h : Keeps app Q P) (ks : List Call) (hc : P c) :
    P (ks.foldl (Conn.call app) c) := by
  induction ks generalizing c with
  | nil => exact hc
  | cons k ks ih => exact ih (h.call k hc)

/-- A callback that has been recorded, with the calls made from inside it. -/
theorem callback (h : Keeps app Q P) {cb : Callback}
    (hc : P { c with trace := c.trace ++ [cb] }) : P (c.callback app cb) :=
  h.foldl_call _ hc

/-- **A coroutine up to its next suspension** keeps `P`. -/
theorem runEffects (h : Keeps app Q P) (owner : Owner) {effects : List Effect}
    (hQ : ∀ e ∈ effects, Q e) (q : Option ℕ) (hc : P c) :
    P (runEffects app owner effects q c) := by
  -- by induction over the effects; a writer that enters the loop keeps the others for later
  induction effects generalizing q c with
  | nil => exact h.finish owner hc
  | cons e effects ih =>
    obtain ⟨he, hrest⟩ := List.forall_mem_cons.mp hQ
    cases e with
    | doWrite frame =>
      rw [Conn.runEffects]
      split_ifs with hw
      · exact ih hrest _ (h.push frame hw hc)
      · exact h.enterWriting frame owner effects (Bool.not_eq_true _ ▸ hw) hrest hc
    | onMessage msg => exact ih hrest _ (h.callback (h.onMessage msg he hc))
    | onClose code reason => exact ih hrest _ (h.callback (h.onClose code reason he hc))
    | close code reason => exact ih hrest _ (h.close code reason (Or.inr he) hc)

/-- **`WebSocket::start`** up to the first read keeps `P`. -/
theorem start (h : Keeps app Q P)
    (hopened : app.handlers.onOpen = true → P { c with trace := c.trace ++ [.onOpen] })
    (hsilent : app.handlers.onOpen ≠ true → P c) : P (c.start app) := by
  unfold Conn.start
  apply h.finish
  split_ifs with hinstalled
  · exact h.callback (hopened hinstalled)
  · exact hsilent hinstalled

end Keeps

/-! ### Steps -/

/-- What each event requires of a connection, and the connection after it. -/
inductive Stepped (app : App) (c : Conn) : Event → Conn → Prop
  | start (hnot : c.readLoop = .notStarted) : Stepped app c .start (c.start app)
  | call (k : Call) : Stepped app c (.call k) (c.call app k)
  | recv (f : WsFrame) (hreading : c.readLoop = .reading) (hopen : c.state = .wsOpen) :
      Stepped app c (.recv f) { c with readLoop := .got f }
  | readError (hreading : c.readLoop = .reading) :
      Stepped app c .readError { c with readLoop := .threw }
  | resume (f : WsFrame) (hgot : c.readLoop = .got f) :
      Stepped app c .resume (Conn.runEffects app .readLoop (handleParsedFrame app.handlers f c.fb).2
        none { c with fb := (handleParsedFrame app.handlers f c.fb).1 })
  | runTask (t : Task) (tasks : List Task) (htasks : c.tasks = t :: tasks) :
      Stepped app c .runTask (Conn.runEffects app .task (c.taskEffects t) none { c with tasks })
  | writeLast (k : ℕ) (w : Writer) (hw : c.writers[k]? = some w) (hq : c.writeQueue.tail = []) :
      Stepped app c (.writeDone k) (Conn.runEffects app w.owner w.rest (some w.queuedAt) { c with
        written := c.written ++ [w.buf]
        writeQueue := []
        writers := c.writers.eraseIdx k
        isWriting := false })
  | writeNext (k : ℕ) (w : Writer) (buf : Bytes) (queue : List Bytes)
      (hw : c.writers[k]? = some w) (hq : c.writeQueue.tail = buf :: queue) :
      Stepped app c (.writeDone k) { c with
        written := c.written ++ [w.buf]
        writeQueue := buf :: queue
        writers := c.writers.eraseIdx k ++ [{ w with buf }] }
  | writeFail (k : ℕ) (w : Writer) (hw : c.writers[k]? = some w) :
      Stepped app c (.writeFail k) { c with
        writers := c.writers.eraseIdx k
        readLoop := if w.owner = .readLoop then .threw else c.readLoop }

/-- **Every step** is one of these. -/
theorem stepped_of_step {e : Event} {c' : Conn} (h : step app c e = some c') :
    Stepped app c e c' := by
  cases e with
  | start =>
    rw [step] at h
    split_ifs at h with hnot
    obtain rfl := Option.some.inj h
    exact .start hnot
  | call k =>
    obtain rfl := Option.some.inj h
    exact .call k
  | recv f =>
    rw [step] at h
    split_ifs at h with hr
    obtain rfl := Option.some.inj h
    exact .recv f hr.1 hr.2
  | readError =>
    rw [step] at h
    split_ifs at h with hr
    obtain rfl := Option.some.inj h
    exact .readError hr
  | resume =>
    rw [step] at h
    cases hr : c.readLoop with
    | got f =>
      simp only [hr, Option.some.injEq] at h
      rw [← h, ← hr]
      exact .resume f hr
    | _ => simp [hr] at h
  | runTask =>
    rw [step] at h
    cases ht : c.tasks with
    | nil => simp [ht] at h
    | cons t tasks =>
      simp only [ht, Option.some.injEq] at h
      rw [← h]
      exact .runTask t tasks ht
  | writeDone k =>
    rw [step, writeDone] at h
    obtain ⟨w, hw, h⟩ := Option.bind_eq_some_iff.mp h
    cases hq : c.writeQueue.tail with
    | nil =>
      simp only [hq] at h
      obtain rfl := Option.some.inj h
      exact .writeLast k w hw hq
    | cons buf queue =>
      simp only [hq] at h
      obtain rfl := Option.some.inj h
      exact .writeNext k w buf queue hw hq
  | writeFail k =>
    rw [step, writeFail] at h
    obtain ⟨w, hw, h⟩ := Option.bind_eq_some_iff.mp h
    obtain rfl := Option.some.inj h
    exact .writeFail k w hw

/-! ### Steps that are not possible -/

/-- A `WebSocket` that has not been started can be started. -/
theorem started_of_none (h : step app c .start = none) : c.readLoop ≠ .notStarted := by
  intro hnot
  rw [step, if_pos hnot] at h
  cases h

/-- The read loop can go on with a frame that it has read. -/
theorem readLoop_ne_got (h : step app c .resume = none) (f : WsFrame) : c.readLoop ≠ .got f := by
  intro hgot
  rw [step, hgot] at h
  cases h

/-- A task that has been posted can run. -/
theorem tasks_eq_nil (h : step app c .runTask = none) : c.tasks = [] := by
  rw [step] at h
  cases htasks : c.tasks with
  | nil => rfl
  | cons t tasks =>
    rw [htasks] at h
    cases h

/-- A write can complete. -/
theorem writers_eq_nil (h : step app c (.writeDone 0) = none) : c.writers = [] := by
  rw [step, writeDone] at h
  cases hw : c.writers with
  | nil => rfl
  | cons w writers =>
    rw [hw] at h
    cases hq : c.writeQueue.tail with
    | nil => simp [hq] at h
    | cons buf queue => simp [hq] at h

/-! ### The write queue -/

/-- The write queue is left alone. -/
structure SameQueue (c c' : Conn) : Prop where
  writeQueue : c'.writeQueue = c.writeQueue
  isWriting : c'.isWriting = c.isWriting
  writers : c'.writers = c.writers
  queued : c'.queued = c.queued

theorem SameQueue.refl (c : Conn) : SameQueue c c :=
  ⟨rfl, rfl, rfl, rfl⟩

theorem SameQueue.trans (h : SameQueue c c') (h' : SameQueue c' c'') : SameQueue c c'' where
  writeQueue := h'.writeQueue.trans h.writeQueue
  isWriting := h'.isWriting.trans h.isWriting
  writers := h'.writers.trans h.writers
  queued := h'.queued.trans h.queued

theorem sameQueue_close (app : App) (q : Option ℕ) (code : UInt16) (reason : Bytes) (c : Conn) :
    SameQueue c (c.close app q code reason) := by
  rcases close_cases app c q code reason with ⟨-, heq⟩ | ⟨-, tasks, heq⟩
  · rw [heq]
    exact SameQueue.refl c
  · rw [heq]
    exact ⟨rfl, rfl, rfl, rfl⟩

theorem sameQueue_call (app : App) (k : Call) (c : Conn) : SameQueue c (c.call app k) := by
  cases k with
  | close code reason => exact sameQueue_close app none code reason c
  | closeAsync code reason => exact ⟨rfl, rfl, rfl, rfl⟩
  | sendTextAsync payload | sendBinaryAsync payload =>
    unfold call
    split_ifs
    · exact ⟨rfl, rfl, rfl, rfl⟩
    · exact SameQueue.refl c

theorem sameQueue_foldl_call (app : App) (ks : List Call) (c : Conn) :
    SameQueue c (ks.foldl (call app) c) := by
  induction ks generalizing c with
  | nil => exact SameQueue.refl c
  | cons k ks ih => exact (sameQueue_call app k c).trans (ih _)

theorem sameQueue_callback (app : App) (cb : Callback) (c : Conn) :
    SameQueue c (c.callback app cb) := by
  have htrace : SameQueue c { c with trace := c.trace ++ [cb] } := ⟨rfl, rfl, rfl, rfl⟩
  exact htrace.trans (sameQueue_foldl_call app _ _)

theorem sameQueue_finish (owner : Owner) (c : Conn) : SameQueue c (c.finish owner) := by
  cases owner with
  | task => exact SameQueue.refl c
  | readLoop => exact ⟨rfl, rfl, rfl, rfl⟩

/-- The start does not write. -/
theorem sameQueue_start (app : App) (c : Conn) : SameQueue c (c.start app) := by
  unfold start
  dsimp only
  split_ifs
  · exact (sameQueue_callback app _ _).trans (sameQueue_finish _ _)
  · exact sameQueue_finish _ _

/-! ### Before and after `start` -/

/-- The read loop goes on, or has found the connection closed. -/
theorem readLoop_finish (c : Conn) : (c.finish .readLoop).readLoop = .reading ∨
    (c.finish .readLoop).readLoop = .returned := by
  rw [finish]
  dsimp only
  split_ifs
  · exact Or.inl rfl
  · exact Or.inr rfl

theorem readLoop_start (app : App) (c : Conn) :
    (c.start app).readLoop = .reading ∨ (c.start app).readLoop = .returned :=
  readLoop_finish _

theorem started_finish (c : Conn) : (c.finish .readLoop).readLoop ≠ .notStarted := by
  rcases readLoop_finish c with hloop | hloop
  · rw [hloop]
    exact ReadLoop.noConfusion
  · rw [hloop]
    exact ReadLoop.noConfusion

theorem keeps_started (app : App) :
    Keeps app (fun _ => True) (fun c => c.readLoop ≠ .notStarted) where
  spawn _ h := h
  close {c q} code reason _ h := by
    rcases close_cases app c q code reason with ⟨-, heq⟩ | ⟨-, tasks, heq⟩
    · rwa [heq]
    · rw [heq]
      exact h
  onMessage _ _ h := h
  onClose _ _ _ h := h
  push _ _ h := h
  enterWriting frame owner rest _ _ h := by
    cases owner with
    | readLoop => exact ReadLoop.noConfusion
    | task => exact h
  finish {c} owner h := by
    cases owner with
    | readLoop => exact started_finish c
    | task => exact h

theorem started_start (app : App) (c : Conn) : (c.start app).readLoop ≠ .notStarted :=
  started_finish _

/-- The start happens once. -/
theorem started_step {e : Event} (h : c.readLoop ≠ .notStarted)
    (hstep : step app c e = some c') : c'.readLoop ≠ .notStarted := by
  have hk := keeps_started app
  cases stepped_of_step hstep with
  | start hnot => exact absurd hnot h
  | call k => exact hk.call k h
  | recv f hreading hopen => exact ReadLoop.noConfusion
  | readError hreading => exact ReadLoop.noConfusion
  | resume f hgot => exact hk.runEffects .readLoop (fun _ _ => trivial) none h
  | runTask t tasks htasks => exact hk.runEffects .task (fun _ _ => trivial) none h
  | writeLast k w hw hq => exact hk.runEffects w.owner (fun _ _ => trivial) _ h
  | writeNext k w buf queue hw hq => exact h
  | writeFail k w hw =>
    dsimp only
    split_ifs
    · exact ReadLoop.noConfusion
    · exact h

/-! ### A closed connection -/

/-- Once the connection is closed, nothing changes what the shutdown has recorded. -/
theorem keeps_shutdown (app : App) (s : Option Shutdown) :
    Keeps app (fun _ => True) (fun c => c.state = .wsClosed ∧ c.shutdown = s) where
  spawn _ h := h
  close code reason _ h := by rwa [close_of_closed h.1]
  onMessage _ _ h := h
  onClose _ _ _ h := h
  push _ _ h := h
  enterWriting _ _ _ _ _ h := h
  finish owner h := by simpa using h

/-- A step keeps what the coroutines keep, if it depends on these fields only. -/
theorem Keeps.step {P : Conn → Prop} (h : Keeps app (fun _ => True) P)
    (hcongr : ∀ c d : Conn, d.state = c.state → d.shutdown = c.shutdown →
      d.cleanedUp = c.cleanedUp → P c → P d)
    {e : Event} {c' : Conn} (hc : P c) (hstep : Conn.step app c e = some c') : P c' := by
  cases stepped_of_step hstep with
  | start hnot => exact h.start (fun _ => hcongr c _ rfl rfl rfl hc) fun _ => hc
  | call k => exact h.call k hc
  | recv f hreading hopen => exact hcongr c _ rfl rfl rfl hc
  | readError hreading => exact hcongr c _ rfl rfl rfl hc
  | resume f hgot =>
    exact h.runEffects .readLoop (fun _ _ => trivial) none (hcongr c _ rfl rfl rfl hc)
  | runTask t tasks htasks =>
    exact h.runEffects .task (fun _ _ => trivial) none (hcongr c _ rfl rfl rfl hc)
  | writeLast k w hw hq =>
    exact h.runEffects w.owner (fun _ _ => trivial) _ (hcongr c _ rfl rfl rfl hc)
  | writeNext k w buf queue hw hq => exact hcongr c _ rfl rfl rfl hc
  | writeFail k w hw => exact hcongr c _ rfl rfl rfl hc

/-- **A closed connection** stays closed. -/
theorem shutdown_step {c' : Conn} {e : Event} (h : c.state = .wsClosed)
    (hstep : step app c e = some c') : c'.state = .wsClosed ∧ c'.shutdown = c.shutdown := by
  apply (keeps_shutdown app c.shutdown).step _ ⟨h, rfl⟩ hstep
  rintro d d' hstate hshut - ⟨hclosed, hsame⟩
  exact ⟨hstate.trans hclosed, hshut.trans hsame⟩

end Conn

end WebSocketsLib
