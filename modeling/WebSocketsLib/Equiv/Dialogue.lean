import WebSocketsLib.Client.Equiv.ServerFrames
import WebSocketsLib.Dialogue
import WebSocketsLib.WebSocket.Equiv.ControlFrames
import WebSocketsLib.WebSocket.Equiv.Received

/-!
# What a client and a server receive from each other

In every run, whatever the application of the server is, whoever calls the public functions of its
`WebSocket`, and however its reads and writes fail:

* `Dialogue.to_server`: `on_message` has received the first of the messages that the client has
  sent, those apart that are too large.
* `Dialogue.to_client`: the client has printed the first of the texts that `send_text_async` has
  accepted.
* `Dialogue.nothing_lost`: when neither side has anything left to do, nobody has closed the
  connection and no read or write has failed, they have received everything.
-/

namespace WebSocketsLib

open Runs WebSocketClient ReceiveLoop

/-! ### A server whose peer goes on sending -/

namespace ReadStream

variable {app : App} {r r' : ReadStream} {s : Bytes}

theorem announcedLength_append {len : UInt64} (h : announcedLength s = some len) (u : Bytes) :
    announcedLength (s ++ u) = some len := by
  unfold announcedLength at h ⊢
  obtain ⟨⟨header, s₁⟩, hheader, hrest⟩ := Option.bind_eq_some_iff.mp h
  obtain ⟨⟨p, s₂⟩, hp, hlen⟩ := Option.bind_eq_some_iff.mp hrest
  obtain ⟨rfl, hheaderLen⟩ := asyncReadDue_eq_some (n := 2) hheader
  obtain ⟨rfl, hpLen⟩ := asyncReadDue_eq_some hp
  have hheader' : asyncReadAny 2 (header ++ (p ++ s₂) ++ u) = some (header, p ++ s₂ ++ u) := by
    rw [List.append_assoc]
    exact asyncReadDue_append (n := 2) hheaderLen _
  apply Option.bind_eq_some_iff.mpr ⟨_, hheader', ?_⟩
  rw [List.append_assoc]
  exact Option.bind_eq_some_iff.mpr ⟨_, asyncReadDue_append hpLen (s₂ ++ u), hlen⟩

/-- More bytes behind those that have not been read. -/
def extend (r : ReadStream) (u : Bytes) : ReadStream :=
  { r with unread := r.unread ++ u }

theorem extend_nil (r : ReadStream) : r.extend [] = r := by
  unfold extend
  rw [List.append_nil]

theorem extend_extend (r : ReadStream) (u v : Bytes) :
    (r.extend u).extend v = r.extend (u ++ v) := by
  unfold extend
  rw [List.append_assoc]

/-- **A step does not depend on what has still to arrive.** -/
theorem step_extend {e : Event} (h : r.step app e = some r') (u : Bytes) :
    (r.extend u).step app e = some (r'.extend u) := by
  cases e with
  | header =>
    unfold step at h ⊢
    dsimp only at h ⊢
    split_ifs at h with hready
    obtain ⟨len, hlen, rfl⟩ := Option.map_eq_some_iff.mp h
    have hready' : (r.extend u).conn.readLoop = .reading ∧ (r.extend u).conn.state = .wsOpen ∧
        (r.extend u).headerRead = false := hready
    rw [if_pos hready']
    show (announcedLength (r.unread ++ u)).map _ = _
    rw [announcedLength_append hlen u]
    rfl
  | payload =>
    unfold step at h ⊢
    dsimp only at h ⊢
    split_ifs at h with hread
    obtain ⟨⟨f, t⟩, hdecode, h⟩ := Option.bind_eq_some_iff.mp h
    obtain ⟨conn, hconn, h⟩ := Option.bind_eq_some_iff.mp h
    obtain rfl := Option.some.inj h
    have hread' : (r.extend u).headerRead = true := hread
    rw [if_pos hread']
    have hdecode' : decodeFrame (r.extend u).unread = some (f, t ++ u) :=
      decodeFrame_append_of_some hdecode u
    rw [hdecode']
    show (r.conn.step app (.recv f)).bind _ = _
    rw [hconn]
    rfl
  | conn e =>
    obtain ⟨conn, hne, hconn, rfl⟩ := step_conn_eq_some h
    have hstep : (r.extend u).step app (.conn e)
        = (r.conn.step app e).map fun conn => { r.extend u with conn } := by
      cases e with
      | recv f => exact absurd rfl (hne f)
      | _ => rfl
    rw [hstep, hconn]
    rfl

theorem run_extend {es : List Event} (h : run (step app) r es = some r') (u : Bytes) :
    run (step app) (r.extend u) es = some (r'.extend u) := by
  induction es generalizing r with
  | nil =>
    obtain rfl : r = r' := Option.some.inj h
    rfl
  | cons e es ih =>
    obtain ⟨r₁, h₁, h⟩ := run_cons_eq_some h
    rw [run, step_extend h₁ u]
    exact ih h

end ReadStream

/-- Whether the event is a read or a write that fails. -/
def ReadStream.Event.fails : ReadStream.Event → Bool
  | .conn e => e.fails
  | _ => false

/-! ### What the client sends -/

/-- The payload of the frame that a call writes. -/
def ClientCall.payload : ClientCall → Bytes
  | .sendText _ msg => msg
  | .sendBinary _ data => data
  | .sendClose _ code => [(code >>> 8 &&& 0xFF).toUInt8, (code &&& 0xFF).toUInt8]

/-- The frame that a call writes, as the server decodes it. -/
def ClientCall.frame : ClientCall → WsFrame
  | .sendText maskBytes msg => (textFrame maskBytes msg).received
  | .sendBinary maskingKey data => binaryOut maskingKey data
  | .sendClose maskingKey code => closeOut maskingKey code

def ClientCall.isMessage : ClientCall → Bool
  | .sendClose _ _ => false
  | _ => true

/-- The messages that are sent before the first Close frame. -/
def messagesSent (calls : List ClientCall) : List Bytes :=
  (calls.takeWhile ClientCall.isMessage).map ClientCall.payload

/-- The bytes of the calls. -/
def bytesSent (calls : List ClientCall) : Bytes :=
  (calls.map (ClientCall.written false)).flatten

/-- The server decodes what a call writes. -/
theorem decodeFrame_written (k : ClientCall) (h : k.payload.length < 2 ^ 64) (t : Bytes) :
    decodeFrame (k.written false ++ t) = some (k.frame, t) := by
  cases k with
  | sendText maskBytes msg =>
    show decodeFrame (sendText false maskBytes msg ++ t) = _
    unfold sendText
    rw [if_neg Bool.false_ne_true, makeFrameText_eq]
    exact decodeFrame_writeFrame (textFrame maskBytes msg) (by decide : (1 : UInt8) < 16) h t
  | sendBinary maskingKey data => exact decodeFrame_sendBinary maskingKey h t
  | sendClose maskingKey code => exact decodeFrame_sendClose maskingKey code t

theorem ClientCall.frame_shape (k : ClientCall) : k.frame.fin = true ∧
    k.frame.payloadData = k.payload ∧ k.frame.closes = !k.isMessage ∧
    (k.isMessage = true → k.frame.opcode = wsText ∨ k.frame.opcode = wsBinary) ∧
    k.frame.opcode ≠ wsPing := by
  cases k with
  | sendText maskBytes msg =>
    exact ⟨rfl, rfl, rfl, fun _ => Or.inl rfl, (by decide : wsText ≠ wsPing)⟩
  | sendBinary maskingKey data =>
    exact ⟨rfl, rfl, rfl, fun _ => Or.inr rfl, (by decide : wsBinary ≠ wsPing)⟩
  | sendClose maskingKey code => exact ⟨rfl, rfl, rfl, nofun, (by decide : wsClose ≠ wsPing)⟩

theorem framesOf_bytesSent {calls : List ClientCall}
    (h : ∀ k ∈ calls, k.payload.length < 2 ^ 64) :
    framesOf (bytesSent calls) = calls.map ClientCall.frame := by
  have hall : Decoder.all decodeFrame ((calls.map (ClientCall.written false)).flatten ++ [])
      = calls.map ClientCall.frame ++ Decoder.all decodeFrame [] :=
    Decoder.all_flatten proper_decodeFrame (fun k hk => decodeFrame_written k (h k hk)) []
  rw [List.append_nil] at hall
  unfold framesOf bytesSent
  rw [hall]
  exact List.append_nil _

/-- **Messages in one frame each** are delivered in their order, those apart that are too large. -/
theorem delivered_messages (handlers : WsHandlers) {fs : List WsFrame}
    (h : ∀ f ∈ fs, f.fin = true ∧ (f.opcode = wsText ∨ f.opcode = wsBinary)) :
    delivered (framesEffects handlers fs)
        = (if handlers.onMessage then (fs.map WsFrame.payloadData).filter fits else []) ∧
      (bodyAfter handlers fs).openMessage = none := by
  induction fs using List.reverseRecOn with
  | nil =>
    refine ⟨?_, rfl⟩
    split_ifs
    · rfl
    · rfl
  | append_singleton fs f ih =>
    obtain ⟨hfs, hf⟩ := List.forall_mem_append.mp h
    obtain ⟨hfin, hop⟩ := hf f (List.mem_singleton_self f)
    obtain ⟨hdelivered, hnone⟩ := ih hfs
    have hspec := frameSpec handlers f (bodyAfter_spec handlers fs).1
    have hcont : f.opcode ≠ wsCont := by
      rcases hop with hop | hop
      · rw [hop]; decide
      · rw [hop]; decide
    have hfragment : f.fragment = .start true f.payloadData := by
      unfold WsFrame.fragment
      rw [if_pos hop, hfin]
    have hstep : Reassembly.step fits none (.start true f.payloadData)
        = (none, if fits f.payloadData then some f.payloadData else none) := by
      show Reassembly.accept fits true f.payloadData = _
      unfold Reassembly.accept
      rw [if_pos rfl]
      split_ifs
      · rfl
      · rfl
    have hdeliver := hspec.delivered
    rw [if_neg (show ¬StrayFinal (bodyAfter handlers fs) f from fun hstray => hcont hstray.1),
      hfragment, hnone, hstep] at hdeliver
    have hopen := hspec.openMessage
    rw [hfragment, hnone, hstep] at hopen
    rw [bodyAfter_concat]
    refine ⟨?_, hopen⟩
    rw [framesEffects_concat, delivered_append, hdelivered, effectsAt, hdeliver]
    have hone : (if fits f.payloadData then some f.payloadData else none).toList
        = [f.payloadData].filter fits := by
      rw [List.filter_singleton]
      cases fits f.payloadData with
      | true => rfl
      | false => rfl
    rw [List.map_append, List.filter_append, hone]
    split_ifs
    · rfl
    · rfl

/-- **What the bytes of the client determine.** -/
theorem messagesOf_bytesSent (handlers : WsHandlers) {calls : List ClientCall}
    (h : ∀ k ∈ calls, k.payload.length < 2 ^ 64) : messagesOf handlers (bytesSent calls)
      = if handlers.onMessage then (messagesSent calls).filter fits else [] := by
  have hbefore : beforeClose (calls.map ClientCall.frame)
      = (calls.takeWhile ClientCall.isMessage).map ClientCall.frame := by
    unfold beforeClose
    rw [List.takeWhile_map]
    congr 2
    funext k
    show (!k.frame.closes) = k.isMessage
    rw [k.frame_shape.2.2.1, Bool.not_not]
  have hmessages : ∀ f ∈ (calls.takeWhile ClientCall.isMessage).map ClientCall.frame,
      f.fin = true ∧ (f.opcode = wsText ∨ f.opcode = wsBinary) := by
    intro f hf
    obtain ⟨k, hk, rfl⟩ := List.mem_map.mp hf
    exact ⟨k.frame_shape.1, k.frame_shape.2.2.2.1 (List.mem_takeWhile_imp hk)⟩
  unfold messagesOf messagesSent
  rw [framesOf_bytesSent h, hbefore, (delivered_messages handlers hmessages).1, List.map_map]
  congr 2
  apply List.map_congr_left
  intro k _
  exact k.frame_shape.2.1

/-! ### The invariant -/

/-- A call on a client that has stopped writes nothing. -/
theorem ClientCall.written_stopped (k : ClientCall) : k.written true = [] := by
  cases k with
  | sendText maskBytes msg => rfl
  | sendBinary maskingKey data => rfl
  | sendClose maskingKey code => rfl

theorem bytesSent_concat (calls : List ClientCall) (k : ClientCall) :
    bytesSent (calls ++ [k]) = bytesSent calls ++ k.written false := by
  unfold bytesSent
  rw [List.map_append, List.flatten_append, List.map_singleton, List.flatten_singleton]

namespace Dialogue

variable {app : App} {s s' : Dialogue}

/-- **What holds at any time**: the server is where it would be if all bytes of the client had
arrived, and the client where what has arrived of the server's bytes takes it. -/
structure Inv (app : App) (s : Dialogue) : Prop where
  sizes : ∀ k ∈ s.sent, k.payload.length < 2 ^ 64
  server : ∃ es, run (ReadStream.step app) { unread := bytesSent s.sent } es
    = some (s.server.extend s.toServer)
  fifo : Outgoing.Fifo { conn := s.server.conn, handed := s.handed }
  accepted : ∃ started frames, s.server.conn.Accepted s.spawned started frames
  arrived : s.arrived ≤ s.handed.flatten.length
  client : Receiving.OnItsWay (s.handed.flatten.take s.arrived) s.client

/-- After the handshake. -/
theorem inv_empty (app : App) : Inv app {} where
  sizes _ hk := absurd hk List.not_mem_nil
  server := ⟨[], rfl⟩
  fifo := Outgoing.fifo_empty
  accepted := ⟨[], [], Conn.accepted_empty⟩
  arrived := Nat.le_refl 0
  client := Receiving.OnItsWay.start

/-- Where the read loop of the server is. -/
theorem Inv.reads (h : s.Inv app) :
    ReadStream.Reads app (bytesSent s.sent) (s.server.extend s.toServer) := by
  obtain ⟨es, hrun⟩ := h.server
  exact ReadStream.reads_run app (bytesSent s.sent) hrun

/-- The client sends no pings. -/
theorem Inv.ne_ping (h : s.Inv app) (f : WsFrame) (hgot : s.server.conn.readLoop = .got f) :
    f.opcode ≠ wsPing := by
  have hmem : f ∈ framesOf (bytesSent s.sent) := h.reads.got_mem hgot
  rw [framesOf_bytesSent h.sizes] at hmem
  obtain ⟨k, -, rfl⟩ := List.mem_map.mp hmem
  exact k.frame_shape.2.2.2.2

/-- A call of the client. -/
theorem Inv.call (h : s.Inv app) (k : ClientCall) (hk : k.payload.length < 2 ^ 64)
    (hstep : s.step app (.call k) = some s') : s'.Inv app := by
  obtain rfl := Option.some.inj hstep
  obtain ⟨es, hrun⟩ := h.server
  cases hstop : s.client.loop.stopped with
  | true =>
    refine ⟨?_, ⟨es, ?_⟩, h.fifo, h.accepted, h.arrived, h.client⟩
    · rw [if_pos rfl]
      exact h.sizes
    · rw [if_pos rfl, k.written_stopped, List.append_nil]
      exact hrun
  | false =>
    refine ⟨?_, ⟨es, ?_⟩, h.fifo, h.accepted, h.arrived, h.client⟩
    · rw [if_neg Bool.false_ne_true]
      exact List.forall_mem_append.mpr ⟨h.sizes, List.forall_mem_singleton.mpr hk⟩
    · rw [if_neg Bool.false_ne_true, bytesSent_concat, ← ReadStream.extend_extend]
      exact ReadStream.run_extend hrun (k.written false)

/-- Bytes that arrive at the server. -/
theorem Inv.toServer (h : s.Inv app) {n : ℕ} (hstep : s.step app (.toServer n) = some s') :
    s'.Inv app := by
  unfold step at hstep
  dsimp only at hstep
  split_ifs at hstep
  obtain rfl := Option.some.inj hstep
  obtain ⟨es, hrun⟩ := h.server
  refine ⟨h.sizes, ⟨es, ?_⟩, h.fifo, h.accepted, h.arrived, h.client⟩
  have hsame : (s.server.extend (s.toServer.take n)).extend (s.toServer.drop n)
      = s.server.extend s.toServer := by
    rw [ReadStream.extend_extend, List.take_append_drop]
  rw [hrun]
  exact congrArg some hsame.symm

/-- What a step of the server does to its connection. -/
theorem conn_of_step {r r' : ReadStream} {e : ReadStream.Event} (h : r.step app e = some r') :
    (r'.conn = r.conn ∧ outstanding r.conn e = r.conn.writers.length ∧
      waiting r.conn e = r.conn.tasks.length) ∨
    ∃ ce, r.conn.step app ce = some r'.conn ∧ ce.fails = e.fails ∧
      outstanding r.conn e = Outgoing.outstanding r.conn ce ∧
      waiting r.conn e = r.conn.waitingTasks ce ∧ ∀ k, ce = .call k → e = .conn (.call k) := by
  cases e with
  | header =>
    unfold ReadStream.step at h
    dsimp only at h
    split_ifs at h
    obtain ⟨len, -, rfl⟩ := Option.map_eq_some_iff.mp h
    exact Or.inl ⟨rfl, rfl, rfl⟩
  | payload =>
    unfold ReadStream.step at h
    dsimp only at h
    split_ifs at h
    obtain ⟨⟨f, t⟩, -, h⟩ := Option.bind_eq_some_iff.mp h
    obtain ⟨conn, hconn, h⟩ := Option.bind_eq_some_iff.mp h
    obtain rfl := Option.some.inj h
    exact Or.inr ⟨.recv f, hconn, rfl, rfl, rfl, fun k hno => by cases hno⟩
  | conn e =>
    obtain ⟨conn, -, hconn, rfl⟩ := ReadStream.step_conn_eq_some h
    exact Or.inr ⟨e, hconn, rfl, rfl, rfl, fun k hk => congrArg _ hk⟩

/-- A step of the server. -/
theorem Inv.serverStep (h : s.Inv app) {e : ReadStream.Event}
    (hstep : s.step app (.server e) = some s') : s'.Inv app := by
  obtain ⟨server, hserver, rfl⟩ := Option.map_eq_some_iff.mp hstep
  obtain ⟨es, hrun⟩ := h.server
  have hrun' : run (ReadStream.step app) { unread := bytesSent s.sent } (es ++ [e])
      = some (server.extend s.toServer) :=
    run_append_of_some hrun (run_singleton (ReadStream.step_extend hserver s.toServer))
  have hgrows : ∀ more : List Bytes, s.arrived ≤ (s.handed ++ more).flatten.length ∧
      (s.handed ++ more).flatten.take s.arrived = s.handed.flatten.take s.arrived := by
    intro more
    rw [List.flatten_append, List.length_append]
    exact ⟨Nat.le_add_right_of_le h.arrived, List.take_append_of_le_length h.arrived⟩
  refine ⟨h.sizes, ⟨_, hrun'⟩, ?_, ?_, (hgrows _).1, ?_⟩
  · rcases conn_of_step hserver with ⟨hsame, hout, -⟩ | ⟨ce, hconn, -, hout, -⟩
    · dsimp only
      rw [hsame, hout, List.drop_length, List.map_nil, List.append_nil]
      exact h.fifo
    · apply Outgoing.fifo_step h.fifo (e := ce)
      unfold Outgoing.step
      rw [hconn]
      dsimp only
      rw [hout]
      rfl
  · obtain ⟨started, frames, hacc⟩ := h.accepted
    rcases conn_of_step hserver with ⟨hsame, -, hwait⟩ | ⟨ce, hconn, -, -, hwait, -⟩
    · refine ⟨started, frames, ?_⟩
      dsimp only
      rw [hsame, hwait, List.drop_length, List.append_nil]
      exact hacc
    · dsimp only
      rw [hwait]
      exact hacc.step h.ne_ping hconn
  · dsimp only
    rw [(hgrows _).2]
    exact h.client

/-- Bytes that arrive at the client. -/
theorem Inv.toClient (h : s.Inv app) {n : ℕ} (hstep : s.step app (.toClient n) = some s') :
    s'.Inv app := by
  unfold step at hstep
  dsimp only at hstep
  split_ifs at hstep with hn
  obtain ⟨client, hclient, rfl⟩ := Option.map_eq_some_iff.mp hstep
  refine ⟨h.sizes, h.server, h.fifo, h.accepted, hn.2, ?_⟩
  have hmore := h.client.step (fun message hno => by cases hno) hclient
  rw [Receiving.arrivals, List.flatMap_singleton] at hmore
  dsimp only
  rw [List.take_add]
  exact hmore

/-- **Every step.** -/
theorem inv_step {e : Event} (h : s.Inv app)
    (hk : ∀ k, e = .call k → k.payload.length < 2 ^ 64) (hstep : s.step app e = some s') :
    s'.Inv app := by
  cases e with
  | call k => exact h.call k (hk k rfl) hstep
  | toServer n => exact h.toServer hstep
  | server e => exact h.serverStep hstep
  | toClient n => exact h.toClient hstep
  | finish =>
    obtain rfl := Option.some.inj hstep
    exact ⟨h.sizes, h.server, h.fifo, h.accepted, h.arrived, h.client.finish⟩
  | receive =>
    obtain ⟨client, hclient, rfl⟩ := Option.map_eq_some_iff.mp hstep
    refine ⟨h.sizes, h.server, h.fifo, h.accepted, h.arrived, ?_⟩
    have hreceive := h.client.step (fun message hno => by cases hno) hclient
    rwa [Receiving.arrivals, List.flatMap_singleton, List.append_nil] at hreceive

theorem inv_run {es : List Event} (hsizes : ∀ k, .call k ∈ es → k.payload.length < 2 ^ 64)
    (hrun : run (step app) {} es = some s) : s.Inv app := by
  have hguard : Guarded (step app) (fun _ e => ∀ k, e = .call k → k.payload.length < 2 ^ 64)
      {} es :=
    (guarded_iff_forall (p := fun e => ∀ k, e = Event.call k → k.payload.length < 2 ^ 64) hrun).mpr
      fun e he k hk => hsizes k (hk ▸ he)
  exact guarded_invariant inv_step (inv_empty app) hguard hrun

/-- An application that greets whoever has connected. -/
def greeting : App where
  handlers := { onOpen := true, onMessage := true }
  react trace := if trace = [.onOpen] then [.sendTextAsync (bytes "hi")] else []

/-- A run in which each side sends a message. -/
def greetingRun : List Event :=
  [.call (.sendBinary 0 [7]), .server (.conn .start), .server (.conn .runTask), .toServer 6,
    .server .header, .toClient 1, .toServer 1, .server (.conn (.writeDone 0)), .server .payload,
    .toClient 3, .server (.conn .resume), .receive]

/-- The state in which it ends. -/
def greeted : Dialogue where
  server := {
    conn := {
      readLoop := .reading
      fb := { maxSize := maxMsgSize, reserved := 1 }
      trace := [.onOpen, .onMessage [7]]
      queued := [[0x81, 2, 104, 105]]
      written := [[0x81, 2, 104, 105]] }
    unread := []
    resized := 1 }
  handed := [[0x81, 2, 104, 105]]
  spawned := [.sendText (bytes "hi")]
  sent := [.sendBinary 0 [7]]
  arrived := 4
  client := {
    loop := {
      assembly := { opcode := 1 }
      printed := [.text (bytes "hi")] } }

theorem length_of_mem_greetingRun (k : ClientCall) (hk : .call k ∈ greetingRun) :
    k.payload.length < 2 ^ 64 := by
  have hone : k = .sendBinary 0 [7] := by simpa [greetingRun] using hk
  rw [hone]
  decide

theorem run_greetingRun : run (step greeting) {} greetingRun = some greeted := by
  decide

/-! ### From the client to the server -/

/-- **What the server receives** are the first of the messages that the client has sent before its
first Close frame, those apart that are too large: whatever the application does, and whatever
fails at the server. -/
theorem to_server (es : List Event) (hsizes : ∀ k, .call k ∈ es → k.payload.length < 2 ^ 64)
    (hrun : run (step app) {} es = some s) :
    receivedMessages s.server.conn.trace <+: (messagesSent s.sent).filter fits := by
  have h : s.Inv app := inv_run hsizes hrun
  have hprefix := h.reads.received
  rw [messagesOf_bytesSent app.handlers h.sizes] at hprefix
  split_ifs at hprefix
  · exact hprefix
  · exact hprefix.trans List.nil_prefix

theorem to_server_greeted :
    receivedMessages greeted.server.conn.trace <+: (messagesSent greeted.sent).filter fits :=
  to_server greetingRun length_of_mem_greetingRun run_greetingRun

end Dialogue

/-! ### The texts of the server -/

/-- The payload of the message that a task sends. -/
def Task.payload : Task → Bytes
  | .closeAsync _ _ => []
  | .sendText payload => payload
  | .sendBinary payload => payload

/-- The texts that `send_text_async` has accepted. -/
def acceptedTexts (tasks : List Task) : List Bytes :=
  tasks.filterMap fun
    | .sendText payload => some payload
    | _ => none

/-- The texts of frames. -/
def textsOf (frames : List WsFrame) : List Bytes :=
  frames.filterMap fun f => if f.opcode = wsText then some f.payloadData else none

theorem textsOf_append (fs gs : List WsFrame) : textsOf (fs ++ gs) = textsOf fs ++ textsOf gs :=
  List.filterMap_append

theorem textsOf_mono {fs gs : List WsFrame} (h : fs <+: gs) : textsOf fs <+: textsOf gs :=
  h.filterMap _

theorem acceptedTexts_mono {tasks tasks' : List Task} (h : tasks <+: tasks') :
    acceptedTexts tasks <+: acceptedTexts tasks' :=
  h.filterMap _

theorem flatMap_printFrame (frames : List WsFrame) :
    frames.flatMap printFrame = (textsOf frames).map .text := by
  induction frames with
  | nil => rfl
  | cons f frames ih =>
    have hone : printFrame f = (textsOf [f]).map .text := by
      rw [textsOf, List.filterMap_cons, printFrame]
      split_ifs
      · rfl
      · rfl
    rw [List.flatMap_cons, ih, hone, ← List.map_append, ← textsOf_append, List.singleton_append]

/-- The frames of the tasks carry their texts. -/
theorem textsOf_frames (tasks : List Task) :
    textsOf (tasks.filterMap Task.frame) = acceptedTexts tasks := by
  induction tasks with
  | nil => rfl
  | cons t tasks ih =>
    have hone : textsOf ([t].filterMap Task.frame) = acceptedTexts [t] := by
      cases t with
      | closeAsync code reason => rfl
      | sendText payload => rfl
      | sendBinary payload => rfl
    rw [← List.singleton_append, List.filterMap_append, textsOf_append, ih, hone]
    exact List.filterMap_append.symm

/-- The client reads no more than the messages. -/
theorem readable_front (frames : List WsFrame) :
    readable frames <+: frames.filter WsFrame.isMessage := by
  have hread : ∀ f ∈ readable frames, f.isMessage = true := by
    intro f hf
    have htaken := List.mem_takeWhile_imp
      (show f ∈ frames.takeWhile fun f => f.isMessage && f.taken from hf)
    exact (Bool.and_eq_true_iff.mp htaken).1
  have hfront : (readable frames).filter WsFrame.isMessage
      <+: frames.filter WsFrame.isMessage :=
    (List.takeWhile_prefix _).filter _
  rwa [List.filter_eq_self.mpr hread] at hfront

/-- If the reading ends for want of more, all frames are messages that the client takes. -/
theorem of_readingEnd_eof {frames : List WsFrame} (h : readingEnd frames = .eof) :
    readable frames = frames ∧ ∀ f ∈ frames, f.isMessage = true := by
  unfold readingEnd at h
  cases hdrop : frames.dropWhile (fun f => f.isMessage && f.taken) with
  | nil =>
    have hall := List.dropWhile_eq_nil_iff.mp hdrop
    exact ⟨List.takeWhile_eq_self_iff.mpr hall,
      fun f hf => (Bool.and_eq_true_iff.mp (hall f hf)).1⟩
  | cons f rest =>
    rw [hdrop] at h
    dsimp only at h
    split_ifs at h

/-- A frame of the server has a length that a frame can announce, if the messages do. -/
theorem Conn.Accepted.lengths {c : Conn} {spawned started : List Task} {frames : List WsFrame}
    (h : c.Accepted spawned started frames) (hsizes : ∀ t ∈ spawned, t.payload.length < 2 ^ 64) :
    ∀ f ∈ frames, f.payloadData.length < 2 ^ 64 := by
  intro f hf
  cases hmessage : f.isMessage with
  | true =>
    have hmem : f ∈ started.filterMap Task.frame :=
      h.front.subset (List.mem_filter.mpr ⟨hf, hmessage⟩)
    obtain ⟨t, ht, hframe⟩ := List.mem_filterMap.mp hmem
    have hspawned : t ∈ spawned := by
      rw [h.tasks]
      exact List.mem_append_left _ ht
    have hlen := hsizes t hspawned
    cases t with
    | closeAsync code reason => cases hframe
    | sendText payload =>
      obtain rfl := Option.some.inj hframe
      exact hlen
    | sendBinary payload =>
      obtain rfl := Option.some.inj hframe
      exact hlen
  | false =>
    cases h.sent f hf with
    | data opcode payload hop =>
      rcases hop with rfl | rfl
      · cases hmessage
      · cases hmessage
    | close code reason =>
      have hlen : (closeFrame code reason).payloadData.length ≤ 125 :=
        length_buildClosePayload_le code reason
      omega

namespace Dialogue

variable {app : App} {s s' : Dialogue}

/-! ### From the server to the client -/

/-- What the frames that are queued determine. -/
theorem Inv.goOn_frames (h : s.Inv app) (hsizes : ∀ t ∈ s.spawned, t.payload.length < 2 ^ 64) :
    ∃ started frames read e, s.server.conn.Accepted s.spawned started frames ∧
      read <+: readable frames ∧
      (receiveLoop (s.handed.flatten.take s.arrived)).printed
        = (textsOf read).map .text ++ [lastLine e] ∧
      (∀ e', EndsIn {} (s.handed.flatten.take s.arrived) e' → e' = e) ∧
      (s.arrived = s.handed.flatten.length → s.server.conn.queued = s.handed →
        read = readable frames ∧ e = readingEnd frames) := by
  obtain ⟨started, frames, hacc⟩ := h.accepted
  obtain ⟨later, hlater⟩ := h.fifo.front
  rw [List.drop_length, List.map_nil, List.append_nil] at hlater
  have hbytes : s.handed.flatten.take s.arrived
      ++ (s.handed.flatten.drop s.arrived ++ later.flatten) = (frames.map writeFrame).flatten := by
    rw [← hacc.queued, ← hlater, List.flatten_append, ← List.append_assoc, List.take_append_drop]
  obtain ⟨read, e, hread, hprinted, hends, hall⟩ :=
    ReceiveLoop.goOn_frames hacc.sent (hacc.lengths hsizes) hbytes (l := {}) rfl
  rw [flatMap_printFrame] at hprinted
  refine ⟨started, frames, read, e, hacc, hread, hprinted, hends, ?_⟩
  intro harrived hqueued
  apply hall
  right
  have hnil : later = [] := by
    rw [hqueued] at hlater
    exact List.append_right_eq_self.mp hlater
  rw [harrived, List.drop_length, hnil]
  rfl

/-- The texts that the client can read are texts that have been accepted. -/
theorem textsOf_of_readable {c : Conn} {spawned started : List Task}
    {frames read : List WsFrame} (h : c.Accepted spawned started frames)
    (hread : read <+: readable frames) : textsOf read <+: acceptedTexts spawned := by
  have hstarted : textsOf read <+: acceptedTexts started := by
    rw [← textsOf_frames]
    exact textsOf_mono ((hread.trans (readable_front frames)).trans h.front)
  have hspawned : started <+: spawned := by
    rw [h.tasks]
    exact List.prefix_append _ _
  exact hstarted.trans (acceptedTexts_mono hspawned)

/-- **What the client prints** are the first of the texts that `send_text_async` has accepted, and
then one line more when its loop has ended: whatever the application does, and whatever fails at
the server. -/
theorem to_client (es : List Event) (hcalls : ∀ k, .call k ∈ es → k.payload.length < 2 ^ 64)
    (hrun : run (step app) {} es = some s)
    (htasks : ∀ t ∈ s.spawned, t.payload.length < 2 ^ 64) :
    ∃ texts, texts <+: acceptedTexts s.spawned ∧
      if s.client.loop.stopped then
        ∃ e, s.client.loop.printed = texts.map .text ++ [lastLine e]
      else s.client.loop.printed = texts.map .text := by
  have h : s.Inv app := inv_run hcalls hrun
  obtain ⟨started, frames, read, e, hacc, hread, hprinted, -, -⟩ := h.goOn_frames htasks
  have htexts := textsOf_of_readable hacc hread
  cases hstop : s.client.loop.stopped with
  | true =>
    have hloop := h.client.stopped hstop [] fun _ => rfl
    rw [List.append_nil] at hloop
    refine ⟨textsOf read, htexts, ?_⟩
    rw [if_pos rfl]
    exact ⟨e, by rw [hloop, hprinted]⟩
  | false =>
    have hloop := h.client.goOn hstop [] fun _ => rfl
    obtain ⟨msgs, a, a', t, t', e', -, -, heq⟩ := goOn_eq s.client.loop (s.client.unread ++ [])
    rw [List.append_nil (List.take _ _)] at hloop
    rw [← hloop, heq] at hprinted
    -- the last line is still to come
    have hfront : s.client.loop.printed ++ msgs.flatMap printMessage = (textsOf read).map .text :=
      (List.append_inj' hprinted rfl).1
    obtain ⟨texts, later, hsplit, htext, -⟩ := List.append_eq_map_iff.mp hfront
    refine ⟨texts, ?_, ?_⟩
    · apply List.IsPrefix.trans _ htexts
      rw [hsplit]
      exact List.prefix_append _ _
    · rw [if_neg Bool.false_ne_true]
      exact htext.symm

theorem length_of_mem_spawned (t : Task) (ht : t ∈ greeted.spawned) :
    t.payload.length < 2 ^ 64 := by
  rw [List.mem_singleton.mp ht]
  decide

theorem to_client_greeted : ∃ texts, texts <+: acceptedTexts greeted.spawned ∧
    if greeted.client.loop.stopped then
      ∃ e, greeted.client.loop.printed = texts.map .text ++ [lastLine e]
    else greeted.client.loop.printed = texts.map .text :=
  to_client greetingRun length_of_mem_greetingRun run_greetingRun length_of_mem_spawned

/-! ### Nothing is lost -/

/-- Whether the event fails. -/
def Event.fails : Event → Bool
  | .server e => e.fails
  | _ => false

/-- Whether it is for the application, another caller or a failure to decide that the event
happens. -/
def Event.decided : Event → Bool
  | .call _ => true
  | .finish => true
  | .server (.conn (.call _)) => true
  | e => e.fails

/-- Nothing happens any more unless somebody decides so. -/
def AtRest (app : App) (s : Dialogue) : Prop :=
  ∀ e, e.decided = false → s.step app e = none

/-- As long as nothing fails, the connection of the server is alive. -/
theorem alive_step {e : Event} (h : s.server.conn.Alive) (hfails : e.fails = false)
    (hstep : s.step app e = some s') : s'.server.conn.Alive := by
  cases e with
  | call k =>
    obtain rfl := Option.some.inj hstep
    exact h
  | toServer n =>
    unfold step at hstep
    dsimp only at hstep
    split_ifs at hstep
    obtain rfl := Option.some.inj hstep
    exact h
  | server e =>
    obtain ⟨server, hserver, rfl⟩ := Option.map_eq_some_iff.mp hstep
    rcases conn_of_step hserver with ⟨hsame, -, -⟩ | ⟨ce, hconn, hsame, -, -⟩
    · show server.conn.Alive
      rw [hsame]
      exact h
    · exact Conn.alive_step h (hsame.trans hfails) hconn
  | toClient n =>
    unfold step at hstep
    dsimp only at hstep
    split_ifs at hstep
    obtain ⟨client, -, rfl⟩ := Option.map_eq_some_iff.mp hstep
    exact h
  | finish =>
    obtain rfl := Option.some.inj hstep
    exact h
  | receive =>
    obtain ⟨client, -, rfl⟩ := Option.map_eq_some_iff.mp hstep
    exact h

/-- The server has nothing to start and nothing to write. -/
theorem AtRest.conn_step (h : s.AtRest app) {e : Conn.Event} (hcall : ∀ k, e ≠ .call k)
    (hrecv : ∀ f, e ≠ .recv f) (hfails : e.fails = false) : s.server.conn.step app e = none := by
  have hnone : s.step app (.server (.conn e)) = none := h _ (by
    cases e with
    | call k => exact absurd rfl (hcall k)
    | _ => exact hfails)
  have hserver : s.server.step app (.conn e) = none := Option.map_eq_none_iff.mp hnone
  cases e with
  | call k => exact absurd rfl (hcall k)
  | recv f => exact absurd rfl (hrecv f)
  | _ => exact Option.map_eq_none_iff.mp hserver

theorem AtRest.server_idle (h : s.AtRest app) :
    s.server.conn.tasks = [] ∧ s.server.conn.writers = [] :=
  ⟨Conn.tasks_eq_nil (h.conn_step nofun nofun rfl),
    Conn.writers_eq_nil (h.conn_step nofun nofun rfl)⟩

/-- Everything that has been queued has been handed to the socket. -/
theorem AtRest.queued_eq (h : s.AtRest app) (hinv : s.Inv app) (halive : s.server.conn.Alive) :
    s.server.conn.queued = s.handed :=
  hinv.fifo.queued_eq halive h.server_idle.2

/-- An open connection waits for the client. -/
theorem AtRest.server_waits (h : s.AtRest app) (hinv : s.Inv app) (halive : s.server.conn.Alive)
    (hopen : s.server.conn.state = .wsOpen) : s.toServer = [] ∧
      s.server.conn.readLoop = .reading ∧ decodeFrame s.server.unread = none := by
  have hreading : s.server.conn.readLoop = .reading := by
    cases hloop : s.server.conn.readLoop with
    | notStarted => exact absurd hloop (Conn.started_of_none (h.conn_step nofun nofun rfl))
    | reading => rfl
    | got f => exact absurd hloop (Conn.readLoop_ne_got (h.conn_step nofun nofun rfl) f)
    | handling =>
      cases hinv.reads with
      | unstarted hloop' hframes hfb hreceived hwriting =>
        rw [show s.server.conn.readLoop = _ from hloop'] at hloop
        cases hloop
      | between seen got hloop' =>
        rw [show s.server.conn.readLoop = _ from hloop'] at hloop
        cases got with
        | none => cases hloop
        | some f => cases hloop
      | inside seen f w hloop' hframes hseen hfb hreceived hclosing hone howner =>
        have hwriters := h.server_idle.2
        rw [show s.server.conn.writers = [w] from hone] at hwriters
        cases hwriters
      | ended seen hloop' =>
        rcases hloop' with hno | hno
        · rw [show s.server.conn.readLoop = _ from hno] at hloop
          cases hloop
        · rw [show s.server.conn.readLoop = _ from hno] at hloop
          cases hloop
    | returned =>
      rw [halive.returned hloop] at hopen
      cases hopen
    | threw => exact absurd hloop halive.threw
  refine ⟨?_, hreading, ?_⟩
  · by_contra hne
    have hnone : s.step app (.toServer s.toServer.length) = none := h _ rfl
    unfold step at hnone
    dsimp only at hnone
    rw [if_pos ⟨List.length_pos_of_ne_nil hne, Nat.le_refl _⟩] at hnone
    cases hnone
  · cases hdecode : decodeFrame s.server.unread with
    | none => rfl
    | some p =>
      have hread (e : ReadStream.Event) (he : Event.decided (.server e) = false) :
          s.server.step app e = none := Option.map_eq_none_iff.mp (h _ he)
      have hpossible : s.server.step app .header ≠ none ∨ s.server.step app .payload ≠ none :=
        ReadStream.header_or_payload hreading hopen hdecode
      rcases hpossible with hne | hne
      · exact absurd (hread .header rfl) hne
      · exact absurd (hread .payload rfl) hne

/-- A receive loop that has not ended waits for the server. -/
theorem AtRest.client_waits (h : s.AtRest app) (hinv : s.Inv app)
    (hstop : s.client.loop.stopped = false) : s.arrived = s.handed.flatten.length ∧
      (readMessage s.client.loop.assembly s.client.unread).1 = .error .eof := by
  have hwaiting : (readMessage s.client.loop.assembly s.client.unread).1 = .error .eof ∧
      s.client.ended = false := by
    have hnone : s.step app .receive = none := h _ rfl
    have hclient : s.client.step .receive = none := Option.map_eq_none_iff.mp hnone
    unfold Receiving.step at hclient
    dsimp only at hclient
    rw [hstop, if_neg Bool.false_ne_true] at hclient
    cases hread : (readMessage s.client.loop.assembly s.client.unread).1 with
    | ok m =>
      rw [hread] at hclient
      cases hclient
    | error e =>
      rw [hread] at hclient
      cases e with
      | eof =>
        dsimp only at hclient
        split_ifs at hclient with hended
        exact ⟨rfl, Bool.not_eq_true _ ▸ hended⟩
      | _ => cases hclient
  refine ⟨?_, hwaiting.1⟩
  by_contra hne
  have hlt : s.arrived < s.handed.flatten.length := Nat.lt_of_le_of_ne hinv.arrived hne
  have hnone : s.step app (.toClient (s.handed.flatten.length - s.arrived)) = none := h _ rfl
  unfold step at hnone
  dsimp only at hnone
  rw [if_pos ⟨Nat.sub_pos_of_lt hlt, by omega⟩] at hnone
  have hclient := Option.map_eq_none_iff.mp hnone
  unfold Receiving.step at hclient
  dsimp only at hclient
  rw [hwaiting.2, if_neg Bool.false_ne_true] at hclient
  cases hclient

/-- What the server has sent then are messages, of which the client has read all. -/
theorem AtRest.readingEnd_eq (h : s.AtRest app) (hinv : s.Inv app) (halive : s.server.conn.Alive)
    (hstop : s.client.loop.stopped = false) (htasks : ∀ t ∈ s.spawned, t.payload.length < 2 ^ 64) :
    ∃ started frames, s.server.conn.Accepted s.spawned started frames ∧
      readable frames = frames ∧ (∀ f ∈ frames, f.isMessage = true) ∧
      s.client.loop.printed = (textsOf frames).map .text := by
  obtain ⟨harrived, heof⟩ := h.client_waits hinv hstop
  obtain ⟨started, frames, read, e, hacc, -, hprinted, hends, hall⟩ := hinv.goOn_frames htasks
  obtain ⟨rfl, he⟩ := hall harrived (h.queued_eq hinv halive)
  -- the loop waits, so what the server has sent ends neither with a Close frame nor too large
  rcases hread : readMessage s.client.loop.assembly s.client.unread with ⟨out, a, t⟩
  rw [hread] at heof
  obtain rfl : out = .error .eof := heof
  have hendsIn : EndsIn {} (s.handed.flatten.take s.arrived) .eof := by
    have hlater := hinv.client.ends hstop [] (fun _ => rfl) .eof
    rw [List.append_nil, List.append_nil] at hlater
    exact hlater (.throws .eof a t hread)
  obtain rfl : ClientError.eof = e := hends .eof hendsIn
  obtain ⟨hreadable, hmessages⟩ := of_readingEnd_eof he.symm
  refine ⟨started, frames, hacc, hreadable, hmessages, ?_⟩
  have hloop := hinv.client.goOn hstop [] fun _ => rfl
  rw [List.append_nil, List.append_nil, goOn_of_error hread, handleException_what] at hloop
  rw [hreadable, ← hloop] at hprinted
  exact (List.append_inj' hprinted rfl).1

theorem alive_run {es : List Event} (hfails : ∀ e ∈ es, e.fails = false)
    (hrun : run (step app) {} es = some s) : s.server.conn.Alive := by
  have hguard : Guarded (step app) (fun _ e => e.fails = false) {} es :=
    (guarded_iff_forall (p := fun e => e.fails = false) hrun).mpr hfails
  exact @guarded_invariant _ _ _ _ (fun s => s.server.conn.Alive)
    (fun h hfails hstep => alive_step h hfails hstep) _ _ _ Conn.alive_empty hguard hrun

/-- **Nothing is lost**: in a run in which no read and no write of the server fails, when nothing
happens any more, the connection is open and the receive loop of the client has not ended, the
application has received all messages that the client has sent before its first Close frame, those
apart that are too large, and the client has printed all texts that `send_text_async` has
accepted. -/
theorem nothing_lost (es : List Event) (hcalls : ∀ k, .call k ∈ es → k.payload.length < 2 ^ 64)
    (hfails : ∀ e ∈ es, e.fails = false) (hrun : run (step app) {} es = some s)
    (htasks : ∀ t ∈ s.spawned, t.payload.length < 2 ^ 64) (hrest : s.AtRest app)
    (hopen : s.server.conn.state = .wsOpen) (hstop : s.client.loop.stopped = false) :
    receivedMessages s.server.conn.trace
        = (if app.handlers.onMessage then (messagesSent s.sent).filter fits else []) ∧
      s.client.loop.printed = (acceptedTexts s.spawned).map .text := by
  have h : s.Inv app := inv_run hcalls hrun
  have halive : s.server.conn.Alive := alive_run hfails hrun
  obtain ⟨htoServer, hreading, hdecode⟩ := hrest.server_waits h halive hopen
  constructor
  · rw [← messagesOf_bytesSent app.handlers h.sizes]
    have hreads := h.reads
    rw [htoServer, ReadStream.extend_nil] at hreads
    exact hreads.all hreading hdecode
  · obtain ⟨started, frames, hacc, -, hmessages, hprinted⟩ :=
      hrest.readingEnd_eq h halive hstop htasks
    have htexts : textsOf frames = acceptedTexts s.spawned := by
      have hall := hacc.all hopen
      rw [List.filter_eq_self.mpr hmessages] at hall
      rw [hall, textsOf_frames, hacc.tasks, hrest.server_idle.1, List.append_nil]
    rw [hprinted, htexts]

theorem atRest_greeted : greeted.AtRest greeting := by
  intro e he
  cases e with
  | call k => cases he
  | toServer n =>
    apply if_neg
    rintro ⟨hpos, hle⟩
    exact absurd (Nat.lt_of_lt_of_le hpos hle) (Nat.lt_irrefl 0)
  | server e =>
    cases e with
    | header => decide
    | payload => rfl
    | conn e =>
      cases e with
      | start => rfl
      | call k => cases he
      | recv f => rfl
      | readError => cases he
      | resume => rfl
      | runTask => rfl
      | writeDone k => rfl
      | writeFail k => cases he
  | toClient n =>
    apply if_neg
    rintro ⟨hpos, hle⟩
    have hle' : 4 + n ≤ 4 := hle
    omega
  | finish => cases he
  | receive => decide

theorem nothing_lost_greeted :
    receivedMessages greeted.server.conn.trace
        = (if greeting.handlers.onMessage then (messagesSent greeted.sent).filter fits else []) ∧
      greeted.client.loop.printed = (acceptedTexts greeted.spawned).map .text :=
  nothing_lost greetingRun length_of_mem_greetingRun (by decide) run_greetingRun
    length_of_mem_spawned atRest_greeted rfl rfl

end Dialogue

end WebSocketsLib
