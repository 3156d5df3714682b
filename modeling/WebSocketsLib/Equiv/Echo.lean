import WebSocketsLib.Client.Equiv.Frames
import WebSocketsLib.Echo
import WebSocketsLib.WebSocket.Equiv.ReadStream
import WebSocketsLib.WebSocket.Equiv.WriteQueue
import Mathlib.Data.List.Infix

/-!
# The echo

`Echo.echo`: whatever the order of the steps, the client's `read_message` calls return the messages
that it has sent, in their order, until it has them all.
-/

namespace WebSocketsLib

open Runs WebSocketClient

/-- A message as the server sends it. -/
def serverFrame (msg : Bytes) : Bytes :=
  writeFrame (Conn.dataFrame wsText msg)

/-- A message as the client sends it. -/
def clientFrame (m : Vector UInt8 4 × Bytes) : Bytes :=
  sendText false m.1 m.2

/-! ### The server -/

/-- A final text frame that fits. -/
theorem handleParsedFrame_text {handlers : WsHandlers} {f : WsFrame} {fb : FrameBody}
    (hinstalled : handlers.onMessage = true) (hasm : fb.assembling = false)
    (hmax : fb.maxSize = maxMsgSize) (hfin : f.fin = true) (hop : f.opcode = wsText)
    (hlen : f.payloadData.length ≤ maxMsgSize) :
    ∃ fb', handleParsedFrame handlers f fb = (fb', [.onMessage f.payloadData]) ∧
      fb'.assembling = false ∧ fb'.maxSize = maxMsgSize := by
  have hfits : fits ([] ++ f.payloadData) = true := decide_eq_true hlen
  have heq : handleParsedFrame handlers f fb
      = appendAndDeliver handlers f (fb.start f.opcode f.payloadLength.toNat) := by
    unfold handleParsedFrame
    rw [hop, if_neg (by decide), if_neg (by decide), if_neg (by decide), if_pos (Or.inl rfl), hasm]
    rfl
  have hmax' : (fb.start f.opcode f.payloadLength.toNat).maxSize = maxMsgSize := hmax
  have happend := append_eq hmax' f.payloadData
  have hempty : (fb.start f.opcode f.payloadLength.toNat).msg = [] := rfl
  rw [hempty, hfits, if_pos rfl] at happend
  rw [heq, appendAndDeliver, happend]
  dsimp only
  rw [if_pos hfin, if_pos hinstalled]
  exact ⟨_, rfl, rfl, hmax⟩

namespace Conn

variable {onOpen onClose : Bool} {c c' : Conn} {queued spawned : List Bytes} {got : Option Bytes}

/-- The message that the read loop has read and not handled. -/
inductive Holds : ReadLoop → Option Bytes → Prop
  | reading : Holds .reading none
  | got (f : WsFrame) (hfin : f.fin = true) (hop : f.opcode = wsText) :
      Holds (.got f) (some f.payloadData)

theorem Holds.cases {loop : ReadLoop} (h : Holds loop got) : loop = .reading ∧ got = none ∨
    ∃ f, loop = .got f ∧ got = some f.payloadData ∧ f.fin = true ∧ f.opcode = wsText := by
  cases h with
  | reading => exact Or.inl ⟨rfl, rfl⟩
  | got f hfin hop => exact Or.inr ⟨f, rfl, rfl, hfin, hop⟩

/-- Where the messages are that the server has read: the answers to `queued` have been queued for
writing, those to `spawned` are tasks of the strand, and `got` has not been handled. -/
structure Echoes (c : Conn) (queued spawned : List Bytes) (got : Option Bytes) : Prop where
  state : c.state = .wsOpen
  assembling : c.fb.assembling = false
  maxSize : c.fb.maxSize = maxMsgSize
  queued : c.queued = queued.map serverFrame
  tasks : c.tasks = spawned.map .sendText
  readLoop : Holds c.readLoop got
  writers : ∀ w ∈ c.writers, w.owner = .task ∧ w.rest = []
  reached : c.ReachedFrom {}

/-- The bytes that have been handed to the socket are the first of those that have been queued. -/
theorem Echoes.handed_append (h : c.Echoes queued spawned got) :
    ∃ later, c.handed ++ later = (queued.map serverFrame).flatten := by
  have horder := h.reached.inOrder
  unfold handed
  rw [← h.queued, horder.queued]
  rcases horder.writer with ⟨hnone, -⟩ | ⟨w, queue, hone, hqueue⟩
  · rw [hnone, List.map_nil, List.append_nil, List.flatten_append]
    exact ⟨_, rfl⟩
  · refine ⟨queue.flatten, ?_⟩
    rw [hone, hqueue, ← List.flatten_append, List.append_assoc]
    rfl

theorem Echoes.recv (h : c.Echoes queued spawned got) {f : WsFrame} (hfin : f.fin = true)
    (hop : f.opcode = wsText) (hstep : step (echoApp onOpen onClose) c (.recv f) = some c') :
    got = none ∧ c'.Echoes queued spawned (some f.payloadData) ∧ c'.handed = c.handed ∧
      c'.written = c.written := by
  have hreached := refines_step (fun _ he => Event.noConfusion he) h.reached hstep
  cases stepped_of_step hstep with
  | recv f hreading hopen =>
    have hgot : got = none := by
      rcases h.readLoop.cases with ⟨-, hnone⟩ | ⟨f', hloop, -⟩
      · exact hnone
      · rw [hreading] at hloop
        cases hloop
    exact ⟨hgot, ⟨h.state, h.assembling, h.maxSize, h.queued, h.tasks, .got f hfin hop, h.writers,
      hreached⟩, rfl, rfl⟩

/-- `on_message` spawns the answer. -/
theorem Echoes.resume (h : c.Echoes queued spawned got)
    (hmax : ∀ m ∈ got, m.length ≤ maxMsgSize)
    (hstep : step (echoApp onOpen onClose) c .resume = some c') :
    ∃ m, got = some m ∧ c'.Echoes queued (spawned ++ [m]) none ∧ c'.handed = c.handed ∧
      c'.written = c.written := by
  have hreached := refines_step (fun _ he => Event.noConfusion he) h.reached hstep
  cases stepped_of_step hstep with
  | resume f hgot =>
    have hholds := h.readLoop
    rw [hgot] at hholds
    cases hholds with
    | got f hfin hop =>
      have hinstalled : (echoApp onOpen onClose).handlers.onMessage = true := rfl
      obtain ⟨fb', hhandle, hasm', hmax'⟩ := handleParsedFrame_text hinstalled h.assembling
        h.maxSize hfin hop (hmax _ rfl)
      rw [hhandle] at hreached ⊢
      have hcalls : (echoApp onOpen onClose).react (c.trace ++ [.onMessage f.payloadData])
          = [.sendTextAsync f.payloadData] := by
        unfold echoApp
        dsimp only
        rw [List.getLast?_concat]
      have hspawned : runEffects (echoApp onOpen onClose) .readLoop [.onMessage f.payloadData] none
          { c with fb := fb' } = { c with
            fb := fb'
            trace := c.trace ++ [.onMessage f.payloadData]
            tasks := c.tasks ++ [.sendText f.payloadData]
            readLoop := .reading } := by
        rw [runEffects, runEffects, callback]
        dsimp only
        rw [hcalls, List.foldl_cons, List.foldl_nil, call, if_pos h.state, finish, spawn]
        dsimp only
        rw [if_pos h.state]
      rw [hspawned] at hreached ⊢
      refine ⟨f.payloadData, rfl, ⟨h.state, hasm', hmax', h.queued, ?_, .reading, h.writers,
        hreached⟩, rfl, rfl⟩
      show c.tasks ++ [.sendText f.payloadData] = _
      rw [h.tasks, List.map_append]
      rfl

/-- There is one writer at most. -/
theorem Echoes.writing (h : c.Echoes queued spawned got) {k : ℕ} {w : Writer}
    (hw : c.writers[k]? = some w) : c.writers = [w] := by
  rcases h.reached.inOrder.writer with ⟨hnone, -⟩ | ⟨w', queue, hone, -⟩
  · rw [hnone] at hw
    cases hw
  · rw [hone] at hw
    rw [hone, List.mem_singleton.mp (List.mem_of_getElem? hw)]

theorem handed_prefix (h : c.written ++ c.writers.map Writer.buf <+:
    c'.written ++ c'.writers.map Writer.buf) : c.handed <+: c'.handed :=
  List.IsPrefix.flatten h

/-- A task of the strand queues the answer. -/
theorem Echoes.runTask (h : c.Echoes queued spawned got)
    (hstep : step (echoApp onOpen onClose) c .runTask = some c') :
    ∃ m rest, spawned = m :: rest ∧ c'.Echoes (queued ++ [m]) rest got ∧
      c.handed <+: c'.handed ∧ c'.written = c.written := by
  have hreached := refines_step (fun _ he => Event.noConfusion he) h.reached hstep
  cases stepped_of_step hstep with
  | runTask t tasks htasks =>
    have hspawned := h.tasks
    rw [htasks] at hspawned
    cases spawned with
    | nil => cases hspawned
    | cons m rest =>
      obtain ⟨rfl, rfl⟩ := List.cons.inj hspawned
      have heffects : c.taskEffects (.sendText m) = [.doWrite (serverFrame m)] := if_pos h.state
      rw [heffects, runEffects] at hreached ⊢
      have hqueued : c.queued ++ [serverFrame m] = (queued ++ [m]).map serverFrame := by
        rw [h.queued, List.map_append]
        rfl
      refine ⟨m, rest, rfl, ?_⟩
      split_ifs at hreached ⊢ with hwriting
      · refine ⟨⟨h.state, h.assembling, h.maxSize, hqueued, rfl, h.readLoop, h.writers,
          hreached⟩, List.prefix_rfl, rfl⟩
      · refine ⟨⟨h.state, h.assembling, h.maxSize, hqueued, rfl, h.readLoop, ?_, hreached⟩,
          handed_prefix ?_, rfl⟩
        · intro w hw
          rcases List.mem_append.mp hw with hold | hnew
          · exact h.writers w hold
          · rw [List.mem_singleton.mp hnew]
            exact ⟨rfl, rfl⟩
        · show c.written ++ c.writers.map Writer.buf <+: c.written ++ (c.writers ++ [_]).map _
          rw [List.map_append, ← List.append_assoc]
          exact List.prefix_append _ _

theorem Echoes.writeDone (h : c.Echoes queued spawned got) {k : ℕ}
    (hstep : step (echoApp onOpen onClose) c (.writeDone k) = some c') :
    c'.Echoes queued spawned got ∧ c.handed <+: c'.handed ∧
      c'.written.length = c.written.length + 1 := by
  have hreached := refines_step (fun _ he => Event.noConfusion he) h.reached hstep
  cases stepped_of_step hstep with
  | writeLast k w hw hq =>
    have hone := h.writing hw
    obtain ⟨howner, hrest⟩ := h.writers w (List.mem_of_getElem? hw)
    rw [howner, hrest, runEffects] at hreached ⊢
    refine ⟨⟨h.state, h.assembling, h.maxSize, h.queued, h.tasks, h.readLoop, ?_, hreached⟩,
      handed_prefix ?_, List.length_append⟩
    · intro w' hw'
      exact h.writers w' (List.mem_of_mem_eraseIdx hw')
    · show c.written ++ c.writers.map Writer.buf <+:
        c.written ++ [w.buf] ++ (c.writers.eraseIdx k).map Writer.buf
      rw [hone]
      exact List.prefix_append _ _
  | writeNext k w buf queue hw hq =>
    have hone := h.writing hw
    refine ⟨⟨h.state, h.assembling, h.maxSize, h.queued, h.tasks, h.readLoop, ?_, hreached⟩,
      handed_prefix ?_, List.length_append⟩
    · intro w' hw'
      rcases List.mem_append.mp hw' with hold | hnew
      · exact h.writers w' (List.mem_of_mem_eraseIdx hold)
      · rw [List.mem_singleton.mp hnew]
        exact h.writers w (List.mem_of_getElem? hw)
    · show c.written ++ c.writers.map Writer.buf <+:
        c.written ++ [w.buf] ++ (c.writers.eraseIdx k ++ [_]).map Writer.buf
      rw [hone]
      exact List.prefix_append _ _

theorem Echoes.start (onOpen onClose : Bool) :
    (start (echoApp onOpen onClose) {}).Echoes [] [] none := by
  have hreached : (Conn.start (echoApp onOpen onClose) {}).ReachedFrom {} :=
    refines_step (fun _ he => Event.noConfusion he) reachedFrom_empty
      (rfl : step (echoApp onOpen onClose) {} .start = _)
  cases onOpen with
  | false => exact ⟨rfl, rfl, rfl, rfl, rfl, .reading, fun _ hw => absurd hw List.not_mem_nil,
      hreached⟩
  | true => exact ⟨rfl, rfl, rfl, rfl, rfl, .reading, fun _ hw => absurd hw List.not_mem_nil,
      hreached⟩

end Conn

/-! ### The system -/

/-- What the client's decoder and the server's need of the length of a message. -/
theorem length_lt_of_le {msg : Bytes} (h : msg.length ≤ 8 * 1024 * 1024) :
    msg.length < 2 ^ 64 ∧ msg.length ≤ maxMsgSize := by
  have hmax : maxMsgSize = 10 * 1024 * 1024 := rfl
  omega

/-- The server decodes what the client sends. -/
theorem decodeFrame_clientFrame (m : Vector UInt8 4 × Bytes) (h : m.2.length ≤ 8 * 1024 * 1024)
    (t : Bytes) : decodeFrame (clientFrame m ++ t) = some ((textFrame m.1 m.2).received, t) := by
  unfold clientFrame sendText
  rw [if_neg Bool.false_ne_true, makeFrameText_eq]
  exact decodeFrame_writeFrame (textFrame m.1 m.2) (by decide : (1 : UInt8) < 16)
    (length_lt_of_le h).1 t

namespace Echo

/-- The value of a `read_message` call that returns a text message. -/
def textMessage (msg : Bytes) : Except ClientError WsMessage :=
  .ok { opcode := 1, payload := msg }

/-- Where the messages are that the client has sent: `inFlight` are on the way to the server or
unread there, `got` and `spawned` are as in `Conn.Echoes`, and of those whose answers have been
queued there the client has returned the first and is waiting for the others. -/
structure Stages where
  returned : List Bytes := []
  waiting : List Bytes := []
  spawned : List Bytes := []
  got : Option Bytes := none
  inFlight : List (Vector UInt8 4 × Bytes) := []

/-- The messages whose answers have been queued for writing. -/
def Stages.queued (g : Stages) : List Bytes :=
  g.returned ++ g.waiting

variable {onOpen onClose : Bool} {messages : List (Vector UInt8 4 × Bytes)} {s s' : Echo}
  {g : Stages}

/-- **Every message is at one stage**, and the bytes between the two ends are those of the messages
that are on the way. -/
structure Inv (messages : List (Vector UInt8 4 × Bytes)) (s : Echo) (g : Stages) : Prop where
  stages : messages.map Prod.snd
    = g.queued ++ g.spawned ++ g.got.toList ++ g.inFlight.map Prod.snd ++ s.toSend.map Prod.snd
  conn : s.server.conn.Echoes g.queued g.spawned g.got
  header : s.server.headerRead = true → g.inFlight ≠ []
  toServer : s.server.unread ++ s.toServer = (g.inFlight.map clientFrame).flatten
  arrived : s.arrived ≤ s.server.conn.handed.length
  unread : (g.returned.map serverFrame).flatten ++ s.unread
    = ((g.queued.map serverFrame).flatten).take s.arrived
  assembly : s.assembly.assembling = false
  outcomes : s.outcomes = g.returned.map textMessage

/-- How many steps of the server and of the client's reading have been made. -/
def made (s : Echo) (g : Stages) : ℕ :=
  4 * g.queued.length + 3 * g.spawned.length + 2 * g.got.toList.length +
    s.server.headerRead.toNat + s.server.conn.written.length + s.arrived + g.returned.length

/-- How many steps of the client's sending and of its bytes' way to the server can be made. -/
def left (s : Echo) : ℕ :=
  s.toSend.length + (s.toServer ++ (s.toSend.map clientFrame).flatten).length

/-- The invariant after a step, which is one step more. -/
def Progress (messages : List (Vector UInt8 4 × Bytes)) (s : Echo) (g : Stages) (s' : Echo) :
    Prop :=
  ∃ g', Inv messages s' g' ∧ made s g + left s' < made s' g' + left s

/-- A step on the client's way to the server. -/
theorem Progress.of_left (g' : Stages) (h : Inv messages s' g') (hmade : made s g = made s' g')
    (hleft : left s' < left s) : Progress messages s g s' :=
  ⟨g', h, by omega⟩

/-- A step of the server, or on its way to the client. -/
theorem Progress.of_made (g' : Stages) (h : Inv messages s' g') (hmade : made s g < made s' g')
    (hleft : left s = left s') : Progress messages s g s' :=
  ⟨g', h, by omega⟩

theorem Inv.length_le (h : Inv messages s g) (hmax : ∀ m ∈ messages, m.2.length ≤ 8 * 1024 * 1024)
    {msg : Bytes}
    (hmsg : msg ∈ g.queued ++ g.spawned ++ g.got.toList ++ g.inFlight.map Prod.snd) :
    msg.length ≤ 8 * 1024 * 1024 := by
  have hmem : msg ∈ messages.map Prod.snd := by
    rw [h.stages]
    exact List.mem_append_left _ hmsg
  obtain ⟨m, hm, rfl⟩ := List.mem_map.mp hmem
  exact hmax m hm

/-! ### One step -/

theorem Inv.send (h : Inv messages s g) (app : App) (hstep : step app s .send = some s') :
    Progress messages s g s' := by
  unfold step at hstep
  dsimp only at hstep
  cases htoSend : s.toSend with
  | nil =>
    rw [htoSend] at hstep
    cases hstep
  | cons m rest =>
    rw [htoSend] at hstep
    obtain rfl := Option.some.inj hstep
    refine Progress.of_left { g with inFlight := g.inFlight ++ [m] }
      ⟨?_, h.conn, ?_, ?_, h.arrived, h.unread, h.assembly, h.outcomes⟩ rfl ?_
    · rw [h.stages, htoSend, List.map_append]
      simp only [List.map_cons, List.map_nil, List.append_assoc, List.singleton_append]
      rfl
    · exact fun _ => List.append_ne_nil_of_right_ne_nil _ (List.cons_ne_nil _ _)
    · show s.server.unread ++ (s.toServer ++ clientFrame m) = _
      rw [← List.append_assoc, h.toServer, List.map_append, List.flatten_append]
      simp
    · show rest.length + (s.toServer ++ clientFrame m ++ (rest.map clientFrame).flatten).length < _
      rw [left, htoSend, List.map_cons, List.flatten_cons, ← List.append_assoc, List.length_cons]
      omega

theorem Inv.arriveAtServer (h : Inv messages s g) (app : App) {n : ℕ}
    (hstep : step app s (.toServer n) = some s') : Progress messages s g s' := by
  unfold step at hstep
  dsimp only at hstep
  split_ifs at hstep with hn
  obtain rfl := Option.some.inj hstep
  refine Progress.of_left g
    ⟨h.stages, h.conn, h.header, ?_, h.arrived, h.unread, h.assembly, h.outcomes⟩ rfl ?_
  · show s.server.unread ++ s.toServer.take n ++ s.toServer.drop n = _
    rw [List.append_assoc, List.take_append_drop, h.toServer]
  · unfold left
    dsimp only
    rw [List.length_append, List.length_append, List.length_drop]
    omega

/-- The frames on the way, when the server has read something. -/
theorem Inv.exists_inFlight (h : Inv messages s g) (hread : s.server.unread ≠ []) :
    ∃ m rest, g.inFlight = m :: rest := by
  apply List.exists_cons_of_ne_nil
  intro hnil
  have hempty := h.toServer
  rw [hnil] at hempty
  exact hread (List.append_eq_nil_iff.mp hempty).1

theorem Inv.header_step (h : Inv messages s g)
    (hstep : step (echoApp onOpen onClose) s (.server .header) = some s') :
    Progress messages s g s' := by
  obtain ⟨server, hserver, rfl⟩ := Option.map_eq_some_iff.mp hstep
  unfold ReadStream.step at hserver
  dsimp only at hserver
  split_ifs at hserver with hready
  obtain ⟨len, hlen, rfl⟩ := Option.map_eq_some_iff.mp hserver
  have hread : s.server.unread ≠ [] := by
    intro hnil
    rw [hnil] at hlen
    cases hlen
  obtain ⟨m, rest, hinFlight⟩ := h.exists_inFlight hread
  refine Progress.of_made g
    ⟨h.stages, h.conn, ?_, h.toServer, h.arrived, h.unread, h.assembly, h.outcomes⟩ ?_ rfl
  · intro _
    rw [hinFlight]
    exact List.cons_ne_nil _ _
  · unfold made
    rw [hready.2.2]
    dsimp only [Bool.toNat_true, Bool.toNat_false]
    omega

/-- **The server decodes** the first of the messages that are on the way. -/
theorem Inv.payload_step (h : Inv messages s g)
    (hmax : ∀ m ∈ messages, m.2.length ≤ 8 * 1024 * 1024)
    (hstep : step (echoApp onOpen onClose) s (.server .payload) = some s') :
    Progress messages s g s' := by
  obtain ⟨server, hserver, rfl⟩ := Option.map_eq_some_iff.mp hstep
  unfold ReadStream.step at hserver
  dsimp only at hserver
  split_ifs at hserver with hheader
  obtain ⟨⟨f, unread⟩, hdecode, hserver⟩ := Option.bind_eq_some_iff.mp hserver
  obtain ⟨conn, hconn, hserver⟩ := Option.bind_eq_some_iff.mp hserver
  obtain rfl := Option.some.inj hserver
  obtain ⟨m, rest, hinFlight⟩ := List.exists_cons_of_ne_nil (h.header hheader)
  have hm : m.2.length ≤ 8 * 1024 * 1024 := by
    apply h.length_le hmax
    rw [hinFlight]
    simp
  -- what has not arrived yet makes no difference to the decoder
  have hwhole := decodeFrame_append_of_some hdecode s.toServer
  rw [h.toServer, hinFlight, List.map_cons, List.flatten_cons,
    decodeFrame_clientFrame m hm] at hwhole
  obtain ⟨rfl, hrest⟩ := Prod.mk.inj (Option.some.inj hwhole)
  obtain ⟨hgot, hechoes, hhanded, hwritten⟩ := h.conn.recv rfl rfl hconn
  refine Progress.of_made { g with got := some m.2, inFlight := rest }
    ⟨?_, hechoes, ?_, hrest.symm, ?_, h.unread, h.assembly, h.outcomes⟩ ?_ rfl
  · rw [h.stages, hgot, hinFlight]
    simp [Stages.queued]
  · intro hno
    cases hno
  · show s.arrived ≤ conn.handed.length
    rw [hhanded]
    exact h.arrived
  · unfold made
    rw [hgot, hheader]
    show 4 * g.queued.length + 3 * g.spawned.length + 0 + 1 + _ + _ + _ < 4 * g.queued.length +
      3 * g.spawned.length + 2 + 0 + conn.written.length + s.arrived + g.returned.length
    rw [hwritten]
    omega

theorem Inv.resume_step (h : Inv messages s g)
    (hmax : ∀ m ∈ messages, m.2.length ≤ 8 * 1024 * 1024)
    (hstep : step (echoApp onOpen onClose) s (.server (.conn .resume)) = some s') :
    Progress messages s g s' := by
  obtain ⟨server, hserver, rfl⟩ := Option.map_eq_some_iff.mp hstep
  obtain ⟨conn, -, hconn, rfl⟩ := ReadStream.step_conn_eq_some hserver
  have hgotMax : ∀ m ∈ g.got, m.length ≤ maxMsgSize := by
    intro m hm
    apply (length_lt_of_le (h.length_le hmax ?_)).2
    rw [Option.mem_def.mp hm]
    simp
  obtain ⟨m, hgot, hechoes, hhanded, hwritten⟩ := h.conn.resume hgotMax hconn
  refine Progress.of_made { g with spawned := g.spawned ++ [m], got := none }
    ⟨?_, hechoes, h.header, h.toServer, ?_, h.unread, h.assembly, h.outcomes⟩ ?_ rfl
  · rw [h.stages, hgot]
    simp [Stages.queued]
  · show s.arrived ≤ conn.handed.length
    rw [hhanded]
    exact h.arrived
  · unfold made
    rw [hgot]
    show 4 * g.queued.length + 3 * g.spawned.length + 2 + _ + _ + _ + _ < 4 * g.queued.length +
      3 * (g.spawned ++ [m]).length + 0 + s.server.headerRead.toNat + conn.written.length +
        s.arrived + g.returned.length
    rw [hwritten, List.length_append, List.length_singleton]
    omega

/-- The bytes that have arrived are the first of those that have been queued. -/
theorem Inv.arrived_le (h : Inv messages s g) :
    s.arrived ≤ ((g.queued.map serverFrame).flatten).length := by
  obtain ⟨later, hlater⟩ := h.conn.handed_append
  rw [← hlater, List.length_append]
  exact h.arrived.trans (Nat.le_add_right _ _)

theorem Inv.runTask_step (h : Inv messages s g)
    (hstep : step (echoApp onOpen onClose) s (.server (.conn .runTask)) = some s') :
    Progress messages s g s' := by
  obtain ⟨server, hserver, rfl⟩ := Option.map_eq_some_iff.mp hstep
  obtain ⟨conn, -, hconn, rfl⟩ := ReadStream.step_conn_eq_some hserver
  obtain ⟨m, rest, hspawned, hechoes, hhanded, hwritten⟩ := h.conn.runTask hconn
  have hqueued : g.returned ++ (g.waiting ++ [m]) = g.queued ++ [m] :=
    (List.append_assoc _ _ _).symm
  rw [← hqueued] at hechoes
  refine Progress.of_made { g with waiting := g.waiting ++ [m], spawned := rest }
    ⟨?_, hechoes, h.header, h.toServer, ?_, ?_, h.assembly, h.outcomes⟩ ?_ rfl
  · rw [h.stages, hspawned]
    simp [Stages.queued]
  · exact h.arrived.trans hhanded.length_le
  · show _ = (((g.returned ++ (g.waiting ++ [m])).map serverFrame).flatten).take s.arrived
    rw [hqueued, List.map_append, List.flatten_append, List.take_append_of_le_length h.arrived_le,
      h.unread]
  · unfold made
    rw [hspawned]
    show 4 * g.queued.length + 3 * (rest.length + 1) + _ + _ + _ + _ + _ <
      4 * (g.returned ++ (g.waiting ++ [m])).length + 3 * rest.length + 2 * g.got.toList.length +
        s.server.headerRead.toNat + conn.written.length + s.arrived + g.returned.length
    rw [hqueued, hwritten, List.length_append, List.length_singleton]
    omega

theorem Inv.writeDone_step (h : Inv messages s g) {k : ℕ}
    (hstep : step (echoApp onOpen onClose) s (.server (.conn (.writeDone k))) = some s') :
    Progress messages s g s' := by
  obtain ⟨server, hserver, rfl⟩ := Option.map_eq_some_iff.mp hstep
  obtain ⟨conn, -, hconn, rfl⟩ := ReadStream.step_conn_eq_some hserver
  obtain ⟨hechoes, hhanded, hwritten⟩ := h.conn.writeDone hconn
  refine Progress.of_made g
    ⟨h.stages, hechoes, h.header, h.toServer, h.arrived.trans hhanded.length_le, h.unread,
      h.assembly, h.outcomes⟩ ?_ rfl
  unfold made
  dsimp only
  rw [hwritten]
  omega

theorem Inv.arriveAtClient (h : Inv messages s g) (app : App) {n : ℕ}
    (hstep : step app s (.toClient n) = some s') : Progress messages s g s' := by
  unfold step at hstep
  dsimp only at hstep
  split_ifs at hstep with hn
  obtain rfl := Option.some.inj hstep
  refine Progress.of_made g
    ⟨h.stages, h.conn, h.header, h.toServer, hn.2, ?_, h.assembly, h.outcomes⟩ ?_ rfl
  · show _ ++ (s.unread ++ (s.server.conn.handed.drop s.arrived).take n) = _
    obtain ⟨later, hlater⟩ := h.conn.handed_append
    have hn' : n ≤ (s.server.conn.handed.drop s.arrived).length := by
      rw [List.length_drop]
      omega
    rw [← List.append_assoc, h.unread, List.take_add, ← hlater,
      List.drop_append_of_le_length h.arrived, List.take_append_of_le_length hn']
  · unfold made
    dsimp only
    omega

/-- `read_message` waits, or returns the first of the messages whose answers are still waiting. -/
theorem Inv.readMessage (h : Inv messages s g)
    (hmax : ∀ m ∈ messages, m.2.length ≤ 8 * 1024 * 1024) :
    (readMessage s.assembly s.unread).1 = .error .eof ∨
      ∃ m rest t, g.waiting = m :: rest ∧ s.unread = serverFrame m ++ t ∧
        readMessage s.assembly s.unread = (textMessage m, Assembly.between 1, t) := by
  -- what has arrived, and what has not
  have hsplit : s.unread ++ ((g.queued.map serverFrame).flatten).drop s.arrived
      = (g.waiting.map serverFrame).flatten := by
    have hall : (g.returned.map serverFrame).flatten ++
        (s.unread ++ ((g.queued.map serverFrame).flatten).drop s.arrived)
          = (g.returned.map serverFrame).flatten ++ (g.waiting.map serverFrame).flatten := by
      rw [← List.append_assoc, h.unread, List.take_append_drop, Stages.queued, List.map_append,
        List.flatten_append]
    exact List.append_cancel_left hall
  cases hwaiting : g.waiting with
  | nil =>
    rw [hwaiting] at hsplit
    have hnil : s.unread = [] := (List.append_eq_nil_iff.mp hsplit).1
    rw [hnil]
    exact Or.inl rfl
  | cons m rest =>
    have hm : m.length ≤ 8 * 1024 * 1024 := by
      apply h.length_le hmax
      rw [Stages.queued, hwaiting]
      simp
    rw [hwaiting, List.map_cons, List.flatten_cons] at hsplit
    refine (readMessage_of_append h.assembly hm hsplit).imp_right ?_
    rintro ⟨t, hread, ht⟩
    refine ⟨m, rest, t, rfl, ?_, hread⟩
    rw [← ht, ← List.append_assoc] at hsplit
    exact List.append_cancel_right hsplit

/-- A call that meets the end of what has arrived goes on waiting. -/
theorem step_read_of_eof (app : App) (h : (readMessage s.assembly s.unread).1 = .error .eof) :
    step app s .read = none := by
  unfold step
  dsimp only
  rcases hread : readMessage s.assembly s.unread with ⟨outcome, assembly, t⟩
  rw [hread] at h
  obtain rfl : outcome = .error .eof := h
  rfl

theorem step_read_of_ok (app : App) {m : WsMessage} {a : Assembly} {t : Bytes}
    (h : readMessage s.assembly s.unread = (.ok m, a, t)) :
    step app s .read
      = some { s with assembly := a, unread := t, outcomes := s.outcomes ++ [.ok m] } := by
  unfold step
  dsimp only
  rw [h]

theorem Inv.read_step (h : Inv messages s g) (app : App)
    (hmax : ∀ m ∈ messages, m.2.length ≤ 8 * 1024 * 1024)
    (hstep : step app s .read = some s') : Progress messages s g s' := by
  rcases h.readMessage hmax with heof | ⟨m, rest, t, hwaiting, hunread, hread⟩
  · rw [step_read_of_eof app heof] at hstep
    cases hstep
  · rw [step_read_of_ok app hread] at hstep
    obtain rfl := Option.some.inj hstep
    have hqueued : g.returned ++ [m] ++ rest = g.queued := by
      rw [Stages.queued, hwaiting, List.append_assoc, List.singleton_append]
    refine Progress.of_made { g with returned := g.returned ++ [m], waiting := rest }
      ⟨?_, ?_, h.header, h.toServer, h.arrived, ?_, rfl, ?_⟩ ?_ rfl
    · show _ = g.returned ++ [m] ++ rest ++ g.spawned ++ _ ++ _ ++ _
      rw [hqueued]
      exact h.stages
    · show s.server.conn.Echoes (g.returned ++ [m] ++ rest) _ _
      rw [hqueued]
      exact h.conn
    · show _ = (((g.returned ++ [m] ++ rest).map serverFrame).flatten).take s.arrived
      rw [hqueued, ← h.unread, hunread]
      simp
    · show s.outcomes ++ [textMessage m] = _
      rw [h.outcomes, List.map_append]
      rfl
    · show _ < 4 * (g.returned ++ [m] ++ rest).length + 3 * g.spawned.length +
        2 * g.got.toList.length + s.server.headerRead.toNat + s.server.conn.written.length +
          s.arrived + (g.returned ++ [m]).length
      have hlen : (g.returned ++ [m]).length = g.returned.length + 1 := List.length_append
      unfold made
      rw [hqueued, hlen]
      omega

/-- **Every step** keeps the invariant, and is one of a bounded number. -/
theorem Inv.step (h : Inv messages s g) (hmax : ∀ m ∈ messages, m.2.length ≤ 8 * 1024 * 1024)
    {e : Event} (hstep : Echo.step (echoApp onOpen onClose) s e = some s') :
    Progress messages s g s' := by
  cases e with
  | send => exact h.send _ hstep
  | toServer n => exact h.arriveAtServer _ hstep
  | toClient n => exact h.arriveAtClient _ hstep
  | read => exact h.read_step _ hmax hstep
  | server e =>
    have hevent : serverEvent e = true := by
      by_contra hno
      rw [Echo.step, if_neg hno] at hstep
      cases hstep
    cases e with
    | header => exact h.header_step hstep
    | payload => exact h.payload_step hmax hstep
    | conn e =>
      cases e with
      | resume => exact h.resume_step hmax hstep
      | runTask => exact h.runTask_step hstep
      | writeDone k => exact h.writeDone_step hstep
      | _ => cases hevent

/-! ### Every run -/

theorem Inv.start (onOpen onClose : Bool) (messages : List (Vector UInt8 4 × Bytes)) :
    Inv messages (start (echoApp onOpen onClose) messages) {} where
  stages := rfl
  conn := Conn.Echoes.start onOpen onClose
  header hno := by cases hno
  toServer := rfl
  arrived := Nat.zero_le _
  unread := rfl
  assembly := rfl
  outcomes := rfl

theorem Inv.run (h : Inv messages s g) (hmax : ∀ m ∈ messages, m.2.length ≤ 8 * 1024 * 1024)
    {es : List Event} (hrun : Runs.run (Echo.step (echoApp onOpen onClose)) s es = some s') :
    ∃ g', Inv messages s' g' ∧ made s g + left s' + es.length ≤ made s' g' + left s :=
  run_progress (fun hinv hstep => hinv.step hmax hstep) h hrun

/-- A bound on the number of steps. -/
def stepBound (messages : List (Vector UInt8 4 × Bytes)) : ℕ :=
  7 * messages.length + ((messages.map clientFrame).flatten).length +
    ((messages.map fun m => serverFrame m.2).flatten).length

theorem Inv.length_stages (h : Inv messages s g) : messages.length = g.queued.length +
    g.spawned.length + g.got.toList.length + g.inFlight.length + s.toSend.length := by
  have hlen := congrArg List.length h.stages
  simp only [List.length_append, List.length_map] at hlen
  exact hlen

theorem Inv.made_le (h : Inv messages s g) : made s g ≤ 6 * messages.length +
    ((messages.map fun m => serverFrame m.2).flatten).length := by
  have hlen := h.length_stages
  have hheader : s.server.headerRead.toNat ≤ g.inFlight.length := by
    cases hread : s.server.headerRead with
    | false => exact Nat.zero_le _
    | true => exact List.length_pos_iff.mpr (h.header hread)
  have hwritten : s.server.conn.written.length ≤ g.queued.length := by
    have hsum := congrArg List.length h.conn.reached.inOrder.queued
    rw [h.conn.queued, List.length_map, List.length_append] at hsum
    omega
  have harrived : s.arrived ≤ ((messages.map fun m => serverFrame m.2).flatten).length := by
    have hall : messages.map (fun m => serverFrame m.2)
        = (messages.map Prod.snd).map serverFrame := by
      rw [List.map_map]
      rfl
    have hfirst : g.queued <+: messages.map Prod.snd := by
      rw [h.stages, List.append_assoc, List.append_assoc, List.append_assoc]
      exact List.prefix_append _ _
    rw [hall]
    exact h.arrived_le.trans (hfirst.map serverFrame).flatten.length_le
  have hreturned : g.returned.length ≤ g.queued.length := by
    rw [Stages.queued, List.length_append]
    exact Nat.le_add_right _ _
  unfold made
  omega

/-- The server cannot go on only if its connection cannot. -/
theorem conn_step_eq_none {app : App} {e : Conn.Event} (hevent : serverEvent (.conn e) = true)
    (hend : Echo.step app s (.server (.conn e)) = none) : s.server.conn.step app e = none := by
  rw [Echo.step, if_pos hevent] at hend
  have hserver := Option.map_eq_none_iff.mp hend
  cases e with
  | resume => exact Option.map_eq_none_iff.mp hserver
  | runTask => exact Option.map_eq_none_iff.mp hserver
  | writeDone k => exact Option.map_eq_none_iff.mp hserver
  | _ => cases hevent

/-- Where the server cannot go on, it has answered what it has read. -/
theorem Inv.server_idle (h : Inv messages s g)
    (hend : ∀ e, Echo.step (echoApp onOpen onClose) s e = none) :
    g.got = none ∧ g.spawned = [] ∧
      s.server.conn.handed = (g.queued.map serverFrame).flatten := by
  have hstuck : ∀ e, serverEvent (.conn e) = true →
      s.server.conn.step (echoApp onOpen onClose) e = none :=
    fun e hevent => conn_step_eq_none hevent (hend (.server (.conn e)))
  refine ⟨?_, ?_, ?_⟩
  · rcases h.conn.readLoop.cases with ⟨-, hnone⟩ | ⟨f, hloop, -⟩
    · exact hnone
    · exact absurd hloop (Conn.readLoop_ne_got (hstuck .resume rfl) f)
  · have htasks := Conn.tasks_eq_nil (hstuck .runTask rfl)
    rw [h.conn.tasks] at htasks
    exact List.map_eq_nil_iff.mp htasks
  · have hwriters := Conn.writers_eq_nil (hstuck (.writeDone 0) rfl)
    have horder := h.conn.reached.inOrder
    have hempty : s.server.conn.writeQueue = [] := by
      rcases horder.writer with ⟨-, hempty⟩ | ⟨w, queue, hone, -⟩
      · exact hempty
      · rw [hwriters] at hone
        cases hone
    rw [Conn.handed, hwriters, List.map_nil, List.append_nil, ← h.conn.queued, horder.queued,
      hempty, List.append_nil]

/-- Where neither the client nor the server can go on, nothing is on the way. -/
theorem Inv.inFlight_nil (h : Inv messages s g)
    (hmax : ∀ m ∈ messages, m.2.length ≤ 8 * 1024 * 1024)
    (hend : ∀ e, Echo.step (echoApp onOpen onClose) s e = none) :
    s.toSend = [] ∧ g.inFlight = [] := by
  have htoSend : s.toSend = [] := by
    have hsend := hend .send
    unfold Echo.step at hsend
    dsimp only at hsend
    cases hs : s.toSend with
    | nil => rfl
    | cons m rest =>
      rw [hs] at hsend
      cases hsend
  have htoServer : s.toServer = [] := by
    by_contra hne
    have harrive := hend (.toServer 1)
    rw [Echo.step, if_pos ⟨Nat.one_pos, List.length_pos_iff.mpr hne⟩] at harrive
    cases harrive
  refine ⟨htoSend, ?_⟩
  cases hinFlight : g.inFlight with
  | nil => rfl
  | cons m rest =>
    -- its frame has arrived: the loop can read the header, or the payload
    have hm : m.2.length ≤ 8 * 1024 * 1024 := by
      apply h.length_le hmax
      rw [hinFlight]
      simp
    have hunread := h.toServer
    rw [htoServer, List.append_nil, hinFlight, List.map_cons, List.flatten_cons] at hunread
    have hdecode := decodeFrame_clientFrame m hm (rest.map clientFrame).flatten
    rw [← hunread] at hdecode
    have hreading : s.server.conn.readLoop = .reading := by
      rcases h.conn.readLoop.cases with ⟨hloop, -⟩ | ⟨f, -, hsome, -⟩
      · exact hloop
      · rw [(h.server_idle hend).1] at hsome
        cases hsome
    have hread : s.server.step (echoApp onOpen onClose) .header ≠ none ∨
        s.server.step (echoApp onOpen onClose) .payload ≠ none :=
      ReadStream.header_or_payload hreading h.conn.state hdecode
    rcases hread with hrun | hrun
    · exact absurd (Option.map_eq_none_iff.mp (hend (.server .header))) hrun
    · exact absurd (Option.map_eq_none_iff.mp (hend (.server .payload))) hrun

/-- **Nothing is left undone** in a state without a next step. -/
theorem Inv.returned_all (h : Inv messages s g)
    (hmax : ∀ m ∈ messages, m.2.length ≤ 8 * 1024 * 1024)
    (hend : ∀ e, Echo.step (echoApp onOpen onClose) s e = none) :
    g.returned = messages.map Prod.snd := by
  obtain ⟨hgot, hspawned, hhanded⟩ := h.server_idle hend
  obtain ⟨htoSend, hinFlight⟩ := h.inFlight_nil hmax hend
  have hall : messages.map Prod.snd = g.queued := by
    rw [h.stages, hgot, hspawned, hinFlight, htoSend]
    simp
  -- every byte has arrived
  have harrived : s.arrived = ((g.queued.map serverFrame).flatten).length := by
    by_contra hne
    have hlt : s.arrived + 1 ≤ s.server.conn.handed.length := by
      have hle := h.arrived_le
      rw [hhanded]
      omega
    have harrive := hend (.toClient 1)
    rw [Echo.step, if_pos ⟨Nat.one_pos, hlt⟩] at harrive
    cases harrive
  have hunread := h.unread
  rw [harrived, List.take_length, Stages.queued, List.map_append, List.flatten_append] at hunread
  have hwaiting : g.waiting = [] := by
    cases hw : g.waiting with
    | nil => rfl
    | cons m rest =>
      have hm : m.length ≤ 8 * 1024 * 1024 := by
        apply h.length_le hmax
        rw [Stages.queued, hw]
        simp
      have hframe := List.append_cancel_left hunread
      rw [hw, List.map_cons, List.flatten_cons] at hframe
      have hread := readMessage_of_readFrame h.assembly (Or.inl rfl) rfl
        (exec_readFrame_writeFrame (f := Conn.dataFrame wsText m) rfl rfl rfl
          (by decide : (1 : UInt8) < 16) (by decide : knownOpcode 1 = true)
          (by decide : (1 : UInt8) ≠ 0x8) hm (rest.map serverFrame).flatten)
      have hstep := hend .read
      rw [step_read_of_ok _ (hframe ▸ hread)] at hstep
      cases hstep
  rw [hall, Stages.queued, hwaiting, List.append_nil]

/-- **End-to-end echo.**  In every run the client's `read_message` calls have returned the first of
its messages in their order; a run makes a bounded number of steps, and where it cannot go on they
have returned all. -/
theorem echo (onOpen onClose : Bool) (messages : List (Vector UInt8 4 × Bytes))
    (hmax : ∀ m ∈ messages, m.2.length ≤ 8 * 1024 * 1024) {es : List Event} {s : Echo}
    (hrun : Runs.run (Echo.step (echoApp onOpen onClose))
      (Echo.start (echoApp onOpen onClose) messages) es = some s) :
    let expected := messages.map fun m => Except.ok { opcode := 1, payload := m.2 }
    s.outcomes <+: expected ∧ es.length ≤ stepBound messages ∧
      ((∀ e, Echo.step (echoApp onOpen onClose) s e = none) → s.outcomes = expected) := by
  intro expected
  have hexpected : expected = (messages.map Prod.snd).map textMessage := by
    rw [List.map_map]
    rfl
  obtain ⟨g, hinv, hsteps⟩ := (Inv.start onOpen onClose messages).run hmax hrun
  refine ⟨?_, ?_, ?_⟩
  · have hfirst : g.returned <+: messages.map Prod.snd := by
      rw [hinv.stages, Stages.queued]
      simp only [List.append_assoc]
      exact List.prefix_append _ _
    rw [hinv.outcomes, hexpected]
    exact hfirst.map textMessage
  · have hmade := hinv.made_le
    have hstart : left (Echo.start (echoApp onOpen onClose) messages)
        = messages.length + ((messages.map clientFrame).flatten).length := rfl
    rw [hstart] at hsteps
    unfold stepBound
    omega
  · intro hend
    rw [hinv.outcomes, hexpected, hinv.returned_all hmax hend]

/-- One message. -/
def hi : List (Vector UInt8 4 × Bytes) :=
  [(#v[1, 2, 3, 4], bytes "hi")]

/-- A run in which the message arrives in two parts, and its echo before its write has completed. -/
def hiRun : List Event :=
  [.send, .toServer 6, .server .header, .toServer 2, .server .payload, .server (.conn .resume),
    .server (.conn .runTask), .toClient 4, .read, .server (.conn (.writeDone 0))]

def hiReturned : Echo where
  server := {
    conn := {
      readLoop := .reading
      fb := { maxSize := maxMsgSize, reserved := 2 }
      trace := [.onMessage (bytes "hi")]
      queued := [serverFrame (bytes "hi")]
      written := [serverFrame (bytes "hi")] }
    unread := []
    resized := 2 }
  toSend := []
  arrived := 4
  assembly := { opcode := 1 }
  outcomes := [.ok { opcode := 1, payload := bytes "hi" }]

theorem echo_hi : hiReturned.outcomes <+: [.ok { opcode := 1, payload := bytes "hi" }] ∧
    hiRun.length ≤ stepBound hi ∧
      ((∀ e, Echo.step (echoApp false true) hiReturned e = none) →
        hiReturned.outcomes = [.ok { opcode := 1, payload := bytes "hi" }]) :=
  @echo false true hi (by decide) hiRun hiReturned rfl

end Echo

end WebSocketsLib
