import WebSocketsLib.WebSocket.Equiv.Connection
import WebSocketsLib.WebSocket.Outgoing

/-!
# What becomes of the messages that are accepted for sending

`send_text_async` and `send_binary_async` spawn a task, and the task queues a frame.
`Conn.Accepted`: in every state the data frames that have been queued are those of the first tasks,
in their order, and while the connection is open those of all tasks that have started.
-/

namespace WebSocketsLib

/-- The frame that a task queues when the connection is still open. -/
def Task.frame : Task → Option WsFrame
  | .closeAsync _ _ => none
  | .sendText payload => some (Conn.dataFrame wsText payload)
  | .sendBinary payload => some (Conn.dataFrame wsBinary payload)

/-- A frame that carries a message. -/
def WsFrame.isMessage (f : WsFrame) : Bool :=
  f.opcode == wsText || f.opcode == wsBinary

/-- The frames that a server queues which is not pinged: those of its tasks, and Close frames. -/
inductive ServerFrame : WsFrame → Prop
  | data (opcode : UInt8) (payload : Bytes) (hop : opcode = wsText ∨ opcode = wsBinary) :
      ServerFrame (Conn.dataFrame opcode payload)
  | close (code : UInt16) (reason : Bytes) : ServerFrame (closeFrame code reason)

/-- An effect that queues no frame but Close frames. -/
def Effect.ClosesOnly : Effect → Prop
  | .doWrite frame => ∃ code reason, frame = writeFrame (closeFrame code reason)
  | _ => True

/-- The messages and the Close frames that are handled are not answered but with Close frames. -/
theorem closesOnly_handleParsedFrame {handlers : WsHandlers} {f : WsFrame} {fb : FrameBody}
    (h : f.opcode ≠ wsPing) : ∀ e ∈ (handleParsedFrame handlers f fb).2, e.ClosesOnly := by
  have hclose (code : UInt16) (reason : Bytes) :
      ∀ e ∈ sendCloseWithReason code reason, e.ClosesOnly :=
    List.forall_mem_singleton.mpr ⟨code, reason, rfl⟩
  apply forall_handleParsedFrame
  · intro code reason
    unfold reportError
    apply List.forall_mem_append.mpr ⟨hclose code reason, ?_⟩
    split_ifs
    · exact List.forall_mem_singleton.mpr trivial
    · exact fun _ he => absurd he List.not_mem_nil
  · rintro ⟨hping, -⟩
    exact absurd hping h
  · intro _
    obtain ⟨code, reason, heq⟩ := handleCloseFrame_eq f.payloadData
    rw [heq]
    exact List.forall_mem_append.mpr ⟨hclose code reason, List.forall_mem_singleton.mpr trivial⟩
  · exact fun _ _ => trivial

namespace Conn

variable {app : App} {c c' c'' : Conn} {spawned started more : List Task} {frames : List WsFrame}

/-- **Where the accepted messages are**, when the tasks `spawned` have been spawned: the frames
`frames` have been queued, and the tasks `started` have started. -/
structure Accepted (c : Conn) (spawned started : List Task) (frames : List WsFrame) : Prop where
  tasks : spawned = started ++ c.tasks
  queued : c.queued = frames.map writeFrame
  sent : ∀ f ∈ frames, ServerFrame f
  front : frames.filter WsFrame.isMessage <+: started.filterMap Task.frame
  all : c.state = .wsOpen → frames.filter WsFrame.isMessage = started.filterMap Task.frame
  writers : ∀ w ∈ c.writers, ∀ e ∈ w.rest, e.ClosesOnly

/-! ### Calls and callbacks -/

/-- Nothing but more tasks, and perhaps a connection that is closed. -/
structure Spawns (more : List Task) (c c' : Conn) : Prop extends SameQueue c c' where
  tasks : c'.tasks = c.tasks ++ more
  state : c'.state = .wsOpen → c.state = .wsOpen

theorem Spawns.refl (c : Conn) : Spawns [] c c :=
  ⟨SameQueue.refl c, (List.append_nil _).symm, id⟩

theorem Spawns.trans {more' : List Task} (h : Spawns more c c') (h' : Spawns more' c' c'') :
    Spawns (more ++ more') c c'' where
  toSameQueue := h.toSameQueue.trans h'.toSameQueue
  tasks := by rw [h'.tasks, h.tasks, List.append_assoc]
  state hopen := h.state (h'.state hopen)

theorem spawns_close (app : App) (q : Option ℕ) (code : UInt16) (reason : Bytes) (c : Conn) :
    ∃ more, Spawns more c (c.close app q code reason) := by
  have hsame := sameQueue_close app q code reason c
  have htasks : ∃ more, (c.close app q code reason).tasks = c.tasks ++ more := by
    cases hstate : c.state with
    | wsClosed =>
      rw [close_of_closed hstate]
      exact ⟨[], (List.append_nil _).symm⟩
    | wsOpen =>
      rw [close, hstate]
      dsimp only
      split_ifs
      · rw [foldl_callClosed]
        exact ⟨_, rfl⟩
      · exact ⟨[], (List.append_nil _).symm⟩
  obtain ⟨more, htasks⟩ := htasks
  refine ⟨more, hsame, htasks, fun hopen => ?_⟩
  rw [close_state] at hopen
  cases hopen

theorem spawns_call (app : App) (k : Call) (c : Conn) : ∃ more, Spawns more c (c.call app k) := by
  have hspawn (t : Task) : Spawns [t] c (c.spawn t) := ⟨⟨rfl, rfl, rfl, rfl⟩, rfl, id⟩
  cases k with
  | close code reason => exact spawns_close app none code reason c
  | closeAsync code reason => exact ⟨_, hspawn (.closeAsync code reason)⟩
  | sendTextAsync payload =>
    rw [call]
    split_ifs
    · exact ⟨_, hspawn (.sendText payload)⟩
    · exact ⟨[], Spawns.refl c⟩
  | sendBinaryAsync payload =>
    rw [call]
    split_ifs
    · exact ⟨_, hspawn (.sendBinary payload)⟩
    · exact ⟨[], Spawns.refl c⟩

theorem spawns_foldl_call (app : App) (ks : List Call) (c : Conn) :
    ∃ more, Spawns more c (ks.foldl (call app) c) := by
  induction ks generalizing c with
  | nil => exact ⟨[], Spawns.refl c⟩
  | cons k ks ih =>
    obtain ⟨more, hone⟩ := spawns_call app k c
    obtain ⟨more', hrest⟩ := ih (c.call app k)
    exact ⟨more ++ more', hone.trans hrest⟩

theorem spawns_callback (app : App) (cb : Callback) (c : Conn) :
    ∃ more, Spawns more c (c.callback app cb) := by
  obtain ⟨more, hcalls⟩ := spawns_foldl_call app (app.react (c.trace ++ [cb]))
    { c with trace := c.trace ++ [cb] }
  have htrace : Spawns [] c { c with trace := c.trace ++ [cb] } :=
    ⟨⟨rfl, rfl, rfl, rfl⟩, (List.append_nil _).symm, id⟩
  exact ⟨more, htrace.trans hcalls⟩

theorem Accepted.spawns (h : c.Accepted spawned started frames) (hmore : Spawns more c c') :
    c'.Accepted (spawned ++ more) started frames where
  tasks := by rw [h.tasks, hmore.tasks, List.append_assoc]
  queued := hmore.queued.trans h.queued
  sent := h.sent
  front := h.front
  all hopen := h.all (hmore.state hopen)
  writers := by
    rw [hmore.writers]
    exact h.writers

/-- What concerns neither the queue nor the tasks. -/
theorem Accepted.of_eq (h : c.Accepted spawned started frames) (htasks : c'.tasks = c.tasks)
    (hqueued : c'.queued = c.queued) (hstate : c'.state = c.state)
    (hwriters : ∀ w ∈ c'.writers, ∀ e ∈ w.rest, e.ClosesOnly) :
    c'.Accepted spawned started frames where
  tasks := by rw [htasks, h.tasks]
  queued := hqueued.trans h.queued
  sent := h.sent
  front := h.front
  all hopen := h.all (hstate ▸ hopen)
  writers := hwriters

/-! ### Coroutines -/

/-- A Close frame is no message. -/
theorem filter_closeFrame (frames : List WsFrame) (code : UInt16) (reason : Bytes) :
    (frames ++ [closeFrame code reason]).filter WsFrame.isMessage
      = frames.filter WsFrame.isMessage := by
  rw [List.filter_append]
  exact List.append_nil _

theorem Accepted.pushClose (h : c.Accepted spawned started frames) (code : UInt16)
    (reason : Bytes) (hqueued : c'.queued = c.queued ++ [writeFrame (closeFrame code reason)])
    (htasks : c'.tasks = c.tasks) (hstate : c'.state = c.state)
    (hwriters : ∀ w ∈ c'.writers, ∀ e ∈ w.rest, e.ClosesOnly) :
    c'.Accepted spawned started (frames ++ [closeFrame code reason]) where
  tasks := by rw [htasks, h.tasks]
  queued := by rw [hqueued, h.queued, List.map_append, List.map_singleton]
  sent := List.forall_mem_append.mpr ⟨h.sent, List.forall_mem_singleton.mpr (.close code reason)⟩
  front := by
    rw [filter_closeFrame]
    exact h.front
  all := by
    rw [filter_closeFrame, hstate]
    exact h.all
  writers := hwriters

theorem Accepted.finish (h : c.Accepted spawned started frames) (owner : Owner) :
    (c.finish owner).Accepted spawned started frames := by
  cases owner with
  | readLoop => exact h.of_eq rfl rfl rfl h.writers
  | task => exact h

/-- The coroutine that enters the writing loop keeps the rest of its effects. -/
theorem closesOnly_writers_concat {ws : List Writer} {w : Writer}
    (hws : ∀ w ∈ ws, ∀ e ∈ w.rest, e.ClosesOnly) (hw : ∀ e ∈ w.rest, e.ClosesOnly) :
    ∀ w' ∈ ws ++ [w], ∀ e ∈ w'.rest, e.ClosesOnly :=
  List.forall_mem_append.mpr ⟨hws, List.forall_mem_singleton.mpr hw⟩

/-- **A coroutine** that queues Close frames only. -/
theorem Accepted.runEffects (h : c.Accepted spawned started frames) (app : App) (owner : Owner)
    {effects : List Effect} (hcloses : ∀ e ∈ effects, e.ClosesOnly) (q : Option ℕ) :
    ∃ more frames', (runEffects app owner effects q c).tasks = c.tasks ++ more ∧
      (runEffects app owner effects q c).Accepted (spawned ++ more) started frames' := by
  induction effects generalizing q c spawned frames with
  | nil =>
    refine ⟨[], frames, ?_, ?_⟩
    · cases owner with
      | readLoop => exact (List.append_nil _).symm
      | task => exact (List.append_nil _).symm
    · rw [List.append_nil]
      exact h.finish owner
  | cons e effects ih =>
    obtain ⟨he, hrest⟩ := List.forall_mem_cons.mp hcloses
    have hspawned {c₁ : Conn} {more : List Task} (hmore : Spawns more c c₁) (q : Option ℕ) :
        ∃ more' frames', (Conn.runEffects app owner effects q c₁).tasks = c.tasks ++ more' ∧
          (Conn.runEffects app owner effects q c₁).Accepted (spawned ++ more') started frames' := by
      obtain ⟨more', frames', htasks, hacc⟩ := ih (h.spawns hmore) hrest q
      refine ⟨more ++ more', frames', ?_, ?_⟩
      · rw [htasks, hmore.tasks, List.append_assoc]
      · rw [← List.append_assoc]
        exact hacc
    cases e with
    | doWrite frame =>
      obtain ⟨code, reason, rfl⟩ := he
      rw [Conn.runEffects]
      split_ifs with hw
      · have hpushed : (c.push (writeFrame (closeFrame code reason))).Accepted spawned started
            (frames ++ [closeFrame code reason]) := h.pushClose code reason rfl rfl rfl h.writers
        exact ih hpushed hrest _
      · refine ⟨[], frames ++ [closeFrame code reason], (List.append_nil _).symm, ?_⟩
        rw [List.append_nil]
        exact h.pushClose code reason rfl rfl rfl (closesOnly_writers_concat h.writers hrest)
    | onMessage msg =>
      obtain ⟨more, hmore⟩ := spawns_callback app (.onMessage msg) c
      exact hspawned hmore q
    | onClose code reason =>
      obtain ⟨more, hmore⟩ := spawns_callback app (.onClose code reason) c
      exact hspawned hmore q
    | close code reason =>
      obtain ⟨more, hmore⟩ := spawns_close app q code reason c
      exact hspawned hmore q

/-- A data frame that a task queues. -/
theorem Accepted.pushData (h : c.Accepted spawned started frames) {t : Task} {f : WsFrame}
    {tasks : List Task} (ht : c.tasks = t :: tasks) (hf : t.frame = some f)
    (hserver : ServerFrame f) (hmessage : f.isMessage = true) (hopen : c.state = .wsOpen)
    (hqueued : c'.queued = c.queued ++ [writeFrame f]) (htasks : c'.tasks = tasks)
    (hwriters : ∀ w ∈ c'.writers, ∀ e ∈ w.rest, e.ClosesOnly) :
    c'.Accepted spawned (started ++ [t]) (frames ++ [f]) := by
  have hall : (frames ++ [f]).filter WsFrame.isMessage
      = (started ++ [t]).filterMap Task.frame := by
    rw [List.filter_append, List.filterMap_append, h.all hopen, List.filter_singleton, hmessage,
      List.filterMap_cons, hf]
    rfl
  refine ⟨?_, ?_, ?_, ?_, fun _ => hall, hwriters⟩
  · rw [htasks, h.tasks, ht, List.append_assoc]
    rfl
  · rw [hqueued, h.queued, List.map_append, List.map_singleton]
  · exact List.forall_mem_append.mpr ⟨h.sent, List.forall_mem_singleton.mpr hserver⟩
  · simp only [hall, List.prefix_rfl]

/-- A task that queues no message. -/
theorem Accepted.startTask (h : c.Accepted spawned started frames) {t : Task} {tasks : List Task}
    (ht : c.tasks = t :: tasks) (hnone : c.state = .wsOpen → t.frame = none) :
    Accepted { c with tasks } spawned (started ++ [t]) frames where
  tasks := by
    rw [h.tasks, ht, List.append_assoc]
    rfl
  queued := h.queued
  sent := h.sent
  front := by
    rw [List.filterMap_append]
    exact h.front.trans (List.prefix_append _ _)
  all hopen := by
    rw [List.filterMap_append, h.all hopen, List.filterMap_cons, hnone hopen]
    exact (List.append_nil _).symm
  writers := h.writers

/-- A task that sends a message. -/
theorem Accepted.sendTask (h : c.Accepted spawned started frames) (app : App) {t : Task}
    {tasks : List Task} {opcode : UInt8} {payload : Bytes} (ht : c.tasks = t :: tasks)
    (hop : opcode = wsText ∨ opcode = wsBinary) (hf : t.frame = some (dataFrame opcode payload))
    (heffects : c.taskEffects t
      = if c.state = .wsOpen then [.doWrite (writeFrame (dataFrame opcode payload))] else []) :
    ∃ frames', (Conn.runEffects app .task (c.taskEffects t) none { c with tasks }).tasks = tasks ∧
      (Conn.runEffects app .task (c.taskEffects t) none { c with tasks }).Accepted spawned
        (started ++ [t]) frames' := by
  have hmessage : (dataFrame opcode payload).isMessage = true := by
    show (opcode == wsText || opcode == wsBinary) = true
    rw [Bool.or_eq_true, beq_iff_eq, beq_iff_eq]
    exact hop
  rw [heffects]
  split_ifs with hopen
  · rw [Conn.runEffects]
    split_ifs with hw
    · exact ⟨_, rfl, h.pushData ht hf (.data opcode payload hop) hmessage hopen rfl rfl h.writers⟩
    · exact ⟨_, rfl, h.pushData ht hf (.data opcode payload hop) hmessage hopen rfl rfl
        (closesOnly_writers_concat h.writers (fun _ he => absurd he List.not_mem_nil))⟩
  · exact ⟨frames, rfl, h.startTask ht fun hyes => absurd hyes hopen⟩

/-- **A task of the strand.** -/
theorem Accepted.runTask (h : c.Accepted spawned started frames) (app : App) {t : Task}
    {tasks : List Task} (ht : c.tasks = t :: tasks) :
    ∃ more frames',
      (Conn.runEffects app .task (c.taskEffects t) none { c with tasks }).tasks = tasks ++ more ∧
      (Conn.runEffects app .task (c.taskEffects t) none { c with tasks }).Accepted
        (spawned ++ more) (started ++ [t]) frames' := by
  cases t with
  | closeAsync code reason =>
    apply (h.startTask ht fun _ => rfl).runEffects app .task
    show ∀ e ∈ sendCloseWithReason code reason ++ [.close code reason], e.ClosesOnly
    exact List.forall_mem_append.mpr
      ⟨List.forall_mem_singleton.mpr ⟨code, reason, rfl⟩, List.forall_mem_singleton.mpr trivial⟩
  | sendText payload =>
    obtain ⟨frames', htasks, hacc⟩ := h.sendTask app ht (Or.inl rfl) rfl rfl
    refine ⟨[], frames', htasks.trans (List.append_nil _).symm, ?_⟩
    rw [List.append_nil]
    exact hacc
  | sendBinary payload =>
    obtain ⟨frames', htasks, hacc⟩ := h.sendTask app ht (Or.inr rfl) rfl rfl
    refine ⟨[], frames', htasks.trans (List.append_nil _).symm, ?_⟩
    rw [List.append_nil]
    exact hacc

/-! ### Steps -/

/-- `on_open` may spawn tasks. -/
theorem Accepted.start (h : c.Accepted spawned started frames) (app : App) :
    ∃ more, (c.start app).tasks = c.tasks ++ more ∧
      (c.start app).Accepted (spawned ++ more) started frames := by
  unfold Conn.start
  split_ifs
  · obtain ⟨more, hspawns⟩ := spawns_callback app .onOpen c
    exact ⟨more, hspawns.tasks, (h.spawns hspawns).finish .readLoop⟩
  · refine ⟨[], (List.append_nil _).symm, ?_⟩
    rw [List.append_nil]
    exact h.finish .readLoop

/-- **Every step**, if the read loop has not read a ping. -/
theorem Accepted.step (h : c.Accepted spawned started frames) {e : Event}
    (hping : ∀ f, c.readLoop = .got f → f.opcode ≠ wsPing) (hstep : Conn.step app c e = some c') :
    ∃ started' frames',
      c'.Accepted (spawned ++ c'.tasks.drop (c.waitingTasks e)) started' frames' := by
  have hmore {c' : Conn} {n : ℕ} {tasks : List Task} {started' : List Task}
      (hn : n = tasks.length)
      (hrun : ∃ more frames', c'.tasks = tasks ++ more ∧
        c'.Accepted (spawned ++ more) started' frames') :
      ∃ started' frames', c'.Accepted (spawned ++ c'.tasks.drop n) started' frames' := by
    obtain ⟨more, frames', htasks, hacc⟩ := hrun
    refine ⟨started', frames', ?_⟩
    rw [htasks, hn, List.drop_left]
    exact hacc
  have hsame {c' : Conn} (htasks : c'.tasks = c.tasks) (hqueued : c'.queued = c.queued)
      (hstate : c'.state = c.state) (hwriters : ∀ w ∈ c'.writers, ∀ e ∈ w.rest, e.ClosesOnly) :
      ∃ started' frames', c'.Accepted (spawned ++ c'.tasks.drop c.tasks.length) started' frames' :=
    hmore rfl ⟨[], frames, htasks.trans (List.append_nil _).symm, by
      rw [List.append_nil]
      exact h.of_eq htasks hqueued hstate hwriters⟩
  have herase (k : ℕ) : ∀ w ∈ c.writers.eraseIdx k, ∀ e ∈ w.rest, e.ClosesOnly :=
    fun w hw => h.writers w (List.mem_of_mem_eraseIdx hw)
  cases stepped_of_step hstep with
  | start hnot =>
    obtain ⟨more, htasks, hacc⟩ := h.start app
    exact hmore rfl ⟨more, frames, htasks, hacc⟩
  | call k =>
    obtain ⟨more, hspawns⟩ := spawns_call app k c
    exact hmore rfl ⟨more, frames, hspawns.tasks, h.spawns hspawns⟩
  | recv f hreading hopen => exact hsame rfl rfl rfl h.writers
  | readError hreading => exact hsame rfl rfl rfl h.writers
  | resume f hgot =>
    have hfb : Accepted { c with fb := (handleParsedFrame app.handlers f c.fb).1 } spawned started
        frames := h.of_eq rfl rfl rfl h.writers
    exact hmore rfl
      (hfb.runEffects app .readLoop (closesOnly_handleParsedFrame (hping f hgot)) none)
  | runTask t tasks htasks =>
    apply hmore ?_ (h.runTask app htasks)
    show c.tasks.length - 1 = _
    rw [htasks]
    rfl
  | writeLast k w hw hq =>
    have hlast : Accepted { c with
        written := c.written ++ [w.buf]
        writeQueue := []
        writers := c.writers.eraseIdx k
        isWriting := false } spawned started frames := h.of_eq rfl rfl rfl (herase k)
    exact hmore rfl (hlast.runEffects app w.owner (h.writers w (List.mem_of_getElem? hw)) _)
  | writeNext k w buf queue hw hq =>
    exact hsame rfl rfl rfl (closesOnly_writers_concat (herase k)
      (h.writers w (List.mem_of_getElem? hw)))
  | writeFail k w hw => exact hsame rfl rfl rfl (herase k)

/-- The `WebSocket` as it is constructed. -/
theorem accepted_empty : Accepted {} [] [] [] :=
  ⟨rfl, rfl, fun _ hf => absurd hf List.not_mem_nil, List.prefix_rfl, fun _ => rfl,
    fun _ hw => absurd hw List.not_mem_nil⟩

end Conn

end WebSocketsLib
