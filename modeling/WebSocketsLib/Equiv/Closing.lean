import WebSocketsLib.Equiv.Dialogue
import WebSocketsLib.Server.Equiv.Sessions
import WebSocketsLib.WebSocket.Equiv.Ending

/-!
# A dialogue that is closed

`Dialogue.closing`: when the client has sent a Close frame or the server has called `close_async`,
nothing fails and nothing happens any more, the server has closed the connection and has told the
application; and if the application has not closed it without a Close frame, the receive loop of the
client has ended.
-/

namespace WebSocketsLib

open Runs

namespace Dialogue

variable {app : App} {s s' : Dialogue}

/-- A step of the server, seen from its connection. -/
theorem conn_of_serverStep {e : ReadStream.Event} (hstep : s.step app (.server e) = some s') :
    (s'.server.conn = s.server.conn ∧ s'.spawned = s.spawned) ∨
      ∃ ce, s.server.conn.step app ce = some s'.server.conn ∧ ce.fails = e.fails ∧
        s'.spawned = s.spawned ++ s'.server.conn.tasks.drop (s.server.conn.waitingTasks ce) ∧
        ∀ k, ce = .call k → e = .conn (.call k) := by
  obtain ⟨server, hserver, rfl⟩ := Option.map_eq_some_iff.mp hstep
  rcases conn_of_step hserver with ⟨hsame, -, hwait⟩ | ⟨ce, hconn, hfails, -, hwait, hcall⟩
  · left
    refine ⟨hsame, ?_⟩
    dsimp only
    rw [hsame, hwait, List.drop_length, List.append_nil]
  · right
    refine ⟨ce, hconn, hfails, ?_, hcall⟩
    dsimp only
    rw [hwait]

/-- The other steps leave the connection alone. -/
theorem conn_of_other {e : Event} (hno : ∀ e', e ≠ .server e') (hstep : s.step app e = some s') :
    s'.server.conn = s.server.conn ∧ s'.spawned = s.spawned := by
  cases e with
  | call k =>
    obtain rfl := Option.some.inj hstep
    exact ⟨rfl, rfl⟩
  | toServer n =>
    unfold step at hstep
    dsimp only at hstep
    split_ifs at hstep
    obtain rfl := Option.some.inj hstep
    exact ⟨rfl, rfl⟩
  | server e => exact absurd rfl (hno e)
  | toClient n =>
    unfold step at hstep
    dsimp only at hstep
    split_ifs at hstep
    obtain ⟨client, -, rfl⟩ := Option.map_eq_some_iff.mp hstep
    exact ⟨rfl, rfl⟩
  | finish =>
    obtain rfl := Option.some.inj hstep
    exact ⟨rfl, rfl⟩
  | receive =>
    obtain ⟨client, -, rfl⟩ := Option.map_eq_some_iff.mp hstep
    exact ⟨rfl, rfl⟩

/-- **Every run** in which nothing fails, for what the connection and its tasks keep. -/
theorem conn_run {P : Conn → List Task → Prop} {es : List Event}
    (hempty : P {} [])
    (hconn : ∀ {c c' : Conn} {spawned : List Task} {e : Conn.Event}, P c spawned → c.Queueing →
      e.fails = false → (∀ k, e = .call k → .server (.conn (.call k)) ∈ es) →
      c.step app e = some c' → P c' (spawned ++ c'.tasks.drop (c.waitingTasks e)))
    (hcalls : ∀ k, .call k ∈ es → k.payload.length < 2 ^ 64)
    (hfails : ∀ e ∈ es, e.fails = false) (hrun : run (step app) {} es = some s) :
    P s.server.conn s.spawned := by
  have hstep {s s' : Dialogue} {e : Event} (h : s.Inv app ∧ P s.server.conn s.spawned)
      (he : e ∈ es) (hstep : s.step app e = some s') :
      s'.Inv app ∧ P s'.server.conn s'.spawned := by
    obtain ⟨hinv, hp⟩ := h
    refine ⟨inv_step hinv (fun k hk => hcalls k (hk ▸ he)) hstep, ?_⟩
    by_cases hserver : ∃ e', e = .server e'
    · obtain ⟨e', rfl⟩ := hserver
      rcases conn_of_serverStep hstep with ⟨hsame, hspawned⟩ | ⟨ce, hce, hsame, hspawned, hcall⟩
      · rw [hsame, hspawned]
        exact hp
      · rw [hspawned]
        exact hconn hp ⟨s.handed, hinv.fifo⟩ (hsame.trans (hfails _ he))
          (fun k hk => hcall k hk ▸ he) hce
    · obtain ⟨hsame, hspawned⟩ := conn_of_other (fun e' heq => hserver ⟨e', heq⟩) hstep
      rw [hsame, hspawned]
      exact hp
  have hguard : Guarded (step app) (fun _ e => e ∈ es) {} es :=
    (guarded_iff_forall (p := fun e => e ∈ es) hrun).mpr fun _ he => he
  exact (@guarded_invariant _ _ _ _ (fun s => s.Inv app ∧ P s.server.conn s.spawned)
    (fun h he hone => hstep h he hone) _ _ _ ⟨inv_empty app, hempty⟩ hguard hrun).2

/-! ### The server -/

theorem ends_run {es : List Event} (hcalls : ∀ k, .call k ∈ es → k.payload.length < 2 ^ 64)
    (hfails : ∀ e ∈ es, e.fails = false) (hrun : run (step app) {} es = some s) :
    s.server.conn.Ends s.spawned :=
  conn_run Conn.ends_empty (fun h hqueue hfails _ hstep => h.step hqueue hfails hstep)
    hcalls hfails hrun

theorem tidy_run {es : List Event} (hcalls : ∀ k, .call k ∈ es → k.payload.length < 2 ^ 64)
    (hfails : ∀ e ∈ es, e.fails = false) (hrun : run (step app) {} es = some s) :
    s.server.conn.Tidy app := by
  have hok {c : Conn} {e : Conn.Event} (hfails : e.fails = false) : c.raisesOut e = false := by
    cases e with
    | readError => cases hfails
    | writeFail k => cases hfails
    | _ => rfl
  refine conn_run (P := fun c _ => c.Tidy app) (Conn.tidy_empty app) ?_ hcalls hfails hrun
  intro c c' spawned e h _ hfails _ hstep
  refine Conn.tidy_step h (fun hraises => ?_) hstep
  rw [hok hfails] at hraises
  cases hraises

/-- **The connection is closed at rest**, when either side has begun to close it. -/
theorem AtRest.closed (h : s.AtRest app) (hinv : s.Inv app) (halive : s.server.conn.Alive)
    (hends : s.server.conn.Ends s.spawned)
    (hclosing : (∃ maskingKey code, .sendClose maskingKey code ∈ s.sent) ∨
      ∃ code reason, .closeAsync code reason ∈ s.spawned) : s.server.conn.state = .wsClosed := by
  obtain ⟨htasks, hwriters⟩ := h.server_idle
  rcases hclosing with ⟨maskingKey, code, hsent⟩ | ⟨code, reason, hspawned⟩
  · cases hstate : s.server.conn.state with
    | wsClosed => rfl
    | wsOpen =>
      obtain ⟨htoServer, hreading, hdecode⟩ := h.server_waits hinv halive hstate
      have hreads := hinv.reads
      rw [htoServer, ReadStream.extend_nil] at hreads
      -- the read loop would have handled the Close frame
      have hopen := (hreads.all_seen hreading hdecode).1
      rw [framesOf_bytesSent hinv.sizes] at hopen
      have hcloses := hopen _ (List.mem_map_of_mem hsent)
      rw [(ClientCall.sendClose maskingKey code).frame_shape.2.2.1] at hcloses
      cases hcloses
  · rcases hends code reason hspawned with hwaiting | hending
    · rw [htasks] at hwaiting
      exact absurd hwaiting List.not_mem_nil
    · exact hending.closed hwriters

/-! ### The client -/

theorem announced_run (hno : app.NeverCloses) {es : List Event}
    (hcalls : ∀ k, .call k ∈ es → k.payload.length < 2 ^ 64)
    (hfails : ∀ e ∈ es, e.fails = false) (hrun : run (step app) {} es = some s)
    (hcloses : ∀ code reason, .server (.conn (.call (.close code reason))) ∉ es) :
    s.server.conn.Announced := by
  refine conn_run (P := fun c _ => c.Announced) Conn.announced_empty ?_ hcalls hfails hrun
  intro c c' spawned e h hqueue hfails hcall hstep
  refine h.step hno hqueue hfails (fun code reason he => ?_) hstep
  exact hcloses code reason (hcall _ he)

/-- A message is no Close frame. -/
theorem ne_closeFrame {f : WsFrame} (h : ServerFrame f) (hmessage : f.isMessage = true)
    (code : UInt16) (reason : Bytes) : writeFrame f ≠ writeFrame (closeFrame code reason) := by
  intro heq
  have hhead (g : WsFrame) (hg : g.fin = true ∧ g.rsv1 = false ∧ g.rsv2 = false ∧ g.rsv3 = false) :
      (writeFrame g).headD 0 = 0x80 ||| (g.opcode &&& 0x0F) := by
    obtain ⟨hfin, hrsv1, hrsv2, hrsv3⟩ := hg
    unfold writeFrame
    rw [hfin, hrsv1, hrsv2, hrsv3]
    rfl
  have hbytes := congrArg (List.headD · 0) heq
  rw [hhead (closeFrame code reason) ⟨rfl, rfl, rfl, rfl⟩] at hbytes
  cases h with
  | data opcode payload hop =>
    rw [hhead (Conn.dataFrame opcode payload) ⟨rfl, rfl, rfl, rfl⟩] at hbytes
    rcases hop with rfl | rfl
    · exact absurd hbytes (by decide : 0x80 ||| (wsText &&& 0x0F) ≠ 0x80 ||| (wsClose &&& 0x0F))
    · exact absurd hbytes (by decide : 0x80 ||| (wsBinary &&& 0x0F) ≠ 0x80 ||| (wsClose &&& 0x0F))
  | close code' reason' => cases hmessage

/-- **The receive loop has ended at rest**, when the server has queued a Close frame. -/
theorem AtRest.stopped (h : s.AtRest app) (hinv : s.Inv app) (halive : s.server.conn.Alive)
    (htasks : ∀ t ∈ s.spawned, t.payload.length < 2 ^ 64)
    (hpending : s.server.conn.ClosePending) : s.client.loop.stopped = true := by
  by_contra hstop
  obtain ⟨started, frames, hacc, -, hmessages, -⟩ :=
    h.readingEnd_eq hinv halive (Bool.eq_false_iff.mpr hstop) htasks
  obtain ⟨code, reason, hmem⟩ := hpending
  rw [hacc.queued] at hmem
  obtain ⟨f, hf, heq⟩ := List.mem_map.mp hmem
  exact ne_closeFrame (hacc.sent f hf) (hmessages f hf) code reason heq

/-- **The closing handshake**: in a run in which no read and no write of the server fails, when
nothing happens any more and the client has sent a Close frame or `close_async` has been called,
the connection is closed and cleaned up and the application has been told; and if nobody calls
`close` directly, the receive loop of the client has ended too. -/
theorem closing (es : List Event) (hcalls : ∀ k, .call k ∈ es → k.payload.length < 2 ^ 64)
    (hfails : ∀ e ∈ es, e.fails = false) (hrun : run (step app) {} es = some s)
    (htasks : ∀ t ∈ s.spawned, t.payload.length < 2 ^ 64) (hrest : s.AtRest app)
    (hclosing : (∃ maskingKey code, .sendClose maskingKey code ∈ s.sent) ∨
      ∃ code reason, .closeAsync code reason ∈ s.spawned) :
    s.server.conn.state = .wsClosed ∧ s.server.conn.cleanedUp = true ∧
      (app.handlers.onClose = true → ∃ code reason, .onClose code reason ∈ s.server.conn.trace) ∧
      (app.NeverCloses → (∀ code reason, .server (.conn (.call (.close code reason))) ∉ es) →
        s.client.loop.stopped = true) := by
  have hinv : s.Inv app := inv_run hcalls hrun
  have halive : s.server.conn.Alive := alive_run hfails hrun
  have htidy : s.server.conn.Tidy app := tidy_run hcalls hfails hrun
  have hclosed := hrest.closed hinv halive (ends_run hcalls hfails hrun) hclosing
  refine ⟨hclosed, htidy.cleaned.mpr hclosed, htidy.told hclosed, ?_⟩
  intro hno hcloses
  have hannounced := announced_run hno hcalls hfails hrun hcloses
  exact hrest.stopped hinv halive htasks (hannounced.frame (Or.inl hclosed))

/-- An application that only wants to know when the connection is closed. -/
def onlyTold : App where
  handlers := { onClose := true }
  react _ := []

/-- The client closes the connection. -/
def goodbyeRun : List Event :=
  [.call (.sendClose 0 1000), .toServer 6, .server (.conn .start), .server .header, .toServer 2,
    .server .payload, .server (.conn .resume), .server (.conn (.writeDone 0)), .toClient 4,
    .receive]

/-- The state in which it ends. -/
def goodbye : Dialogue where
  server := {
    conn := {
      state := .wsClosed
      readLoop := .returned
      cleanedUp := true
      trace := [.onClose 1000 []]
      queued := [[0x88, 2, 3, 0xE8]]
      written := [[0x88, 2, 3, 0xE8]]
      shutdown := some {
        closeQueuedAt := some 1
        queued := [[0x88, 2, 3, 0xE8]]
        written := [[0x88, 2, 3, 0xE8]] } }
    unread := []
    resized := 2 }
  handed := [[0x88, 2, 3, 0xE8]]
  sent := [.sendClose 0 1000]
  arrived := 4
  client := {
    loop := {
      printed := [.connectionClosed]
      stopped := true } }

theorem run_goodbyeRun : run (step onlyTold) {} goodbyeRun = some goodbye := by
  decide

theorem atRest_goodbye : goodbye.AtRest onlyTold := by
  intro e he
  cases e with
  | call k => cases he
  | toServer n =>
    apply if_neg
    rintro ⟨hpos, hle⟩
    exact absurd (Nat.lt_of_lt_of_le hpos hle) (Nat.lt_irrefl 0)
  | server e =>
    cases e with
    | header => decide
    | payload => rfl
    | conn e =>
      cases e with
      | start => rfl
      | call k => cases he
      | recv f => rfl
      | readError => cases he
      | resume => rfl
      | runTask => rfl
      | writeDone k => rfl
      | writeFail k => cases he
  | toClient n =>
    apply if_neg
    rintro ⟨hpos, hle⟩
    have hle' : 4 + n ≤ 4 := hle
    omega
  | finish => cases he
  | receive => rfl

theorem closing_goodbye :
    goodbye.server.conn.state = .wsClosed ∧ goodbye.server.conn.cleanedUp = true ∧
      (onlyTold.handlers.onClose = true →
        ∃ code reason, .onClose code reason ∈ goodbye.server.conn.trace) ∧
      (onlyTold.NeverCloses →
        (∀ code reason, .server (.conn (.call (.close code reason))) ∉ goodbyeRun) →
        goodbye.client.loop.stopped = true) := by
  refine closing goodbyeRun (fun k hk => ?_) (by decide) run_goodbyeRun (fun t ht => ?_)
    atRest_goodbye (Or.inl ⟨0, 1000, List.mem_singleton_self _⟩)
  · have hone : k = .sendClose 0 1000 := by simpa [goodbyeRun] using hk
    rw [hone]
    decide
  · exact absurd ht List.not_mem_nil

end Dialogue

end WebSocketsLib
