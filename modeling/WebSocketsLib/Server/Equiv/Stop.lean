import WebSocketsLib.Lib.Runs
import WebSocketsLib.Server.Stop
import WebSocketsLib.WebSocket.Equiv.Connection

/-!
# What `stop` reaches

`stopped_of_guarded`: once `close_websockets` has run, no read of a client socket begins and no open
`WebSocket` is registered, in every run in which each `emit` finds something to act on (`Guard`).

A session that an `emit` has reached, or that has no read before it anyway, is `Settled`.  The copy
of the ids and the `emit`s that follow leave only settled sessions behind; `close_websockets` closes
the `WebSocket`s among them, which makes them `Quiet`.
-/

namespace WebSocketsLib

open Runs

/-! ### A closed connection -/

namespace Conn

variable {app : App} {c c' : Conn}

/-- A closed connection begins no read, and `server_cleanup_` is called by `close` only. -/
structure NoRead (reading : Prop) (c : Conn) : Prop where
  state : c.state = .wsClosed
  readLoop : c.readLoop = .reading → reading

theorem keeps_noRead (app : App) (reading : Prop) : Keeps app (fun _ => True) (NoRead reading) where
  spawn _ h := ⟨h.state, h.readLoop⟩
  close code reason _ h := by rwa [close_of_closed h.state]
  onMessage _ _ h := ⟨h.state, h.readLoop⟩
  onClose _ _ _ h := ⟨h.state, h.readLoop⟩
  push _ _ h := ⟨h.state, h.readLoop⟩
  enterWriting frame owner rest _ _ h := by
    refine ⟨h.state, ?_⟩
    cases owner with
    | readLoop =>
      intro hno
      cases hno
    | task => exact h.readLoop
  finish {c} owner h := by
    refine ⟨(finish_state owner).trans h.state, ?_⟩
    cases owner with
    | task => exact h.readLoop
    | readLoop =>
      have hreturned : (c.finish .readLoop).readLoop = .returned := by
        rw [finish, h.state]
        rfl
      rw [hreturned]
      intro hno
      cases hno

/-- **A closed connection** begins no read. -/
theorem noRead_step {e : Event} (h : c.state = .wsClosed) (hstep : step app c e = some c') :
    NoRead (c.readLoop = .reading) c' := by
  have hk := keeps_noRead app (c.readLoop = .reading)
  have hc : NoRead (c.readLoop = .reading) c := ⟨h, id⟩
  cases stepped_of_step hstep with
  | start hnot => exact hk.start (fun _ => ⟨hc.state, hc.readLoop⟩) fun _ => hc
  | call k => exact hk.call k hc
  | recv f hreading hopen => exact ⟨h, fun _ => hreading⟩
  | readError hreading => exact ⟨h, fun _ => hreading⟩
  | resume f hgot =>
    exact hk.runEffects .readLoop (fun _ _ => trivial) none ⟨hc.state, hc.readLoop⟩
  | runTask t tasks htasks =>
    exact hk.runEffects .task (fun _ _ => trivial) none ⟨hc.state, hc.readLoop⟩
  | writeLast k w hw hq =>
    exact hk.runEffects w.owner (fun _ _ => trivial) _ ⟨hc.state, hc.readLoop⟩
  | writeNext k w buf queue hw hq => exact ⟨h, id⟩
  | writeFail k w hw =>
    refine ⟨h, ?_⟩
    show (if w.owner = .readLoop then ReadLoop.threw else c.readLoop) = .reading → _
    split_ifs
    · intro hno
      cases hno
    · exact id

/-- `server_cleanup_` has been called only if the connection is closed. -/
def Cleaned (c : Conn) : Prop :=
  c.cleanedUp = true → c.state = .wsClosed

theorem keeps_cleaned (app : App) : Keeps app (fun _ => True) Cleaned where
  spawn _ h := h
  close {c q} code reason _ h := fun _ => close_state q code reason
  onMessage _ _ h := h
  onClose _ _ _ h := h
  push _ _ h := h
  enterWriting _ _ _ _ _ h := h
  finish {c} owner h := by
    intro hcleaned
    rw [finish_state]
    apply h
    cases owner
    · exact hcleaned
    · exact hcleaned

theorem cleaned_step {e : Event} (h : c.Cleaned) (hstep : step app c e = some c') :
    c'.Cleaned := by
  apply (keeps_cleaned app).step _ h hstep
  intro d d' hstate _ hcleaned hd hyes
  rw [hstate]
  exact hd (hcleaned.symm.trans hyes)

/-- A connection that is open has been open before. -/
theorem open_of_step {e : Event} (hstep : step app c e = some c') (h : c'.state = .wsOpen) :
    c.state = .wsOpen := by
  cases hs : c.state with
  | wsOpen => rfl
  | wsClosed =>
    rw [(shutdown_step hs hstep).1] at h
    cases h

end Conn

namespace Stop

/-! ### Sessions that stop -/

namespace Point

/-- Whether the coroutine begins no read and registers nothing any more, if it goes on. -/
def isLast : Point → Bool
  | .handler keepAlive => !keepAlive
  | .write _ keepAlive => !keepAlive
  | .refusal => true
  | .finished => true
  | _ => false

/-- Whether the `WebSocket` has been registered. -/
def isWebSocket : Point → Bool
  | .registered => true
  | .assigned => true
  | .started _ => true
  | _ => false

def isUpgrade : Point → Bool
  | .upgrade _ => true
  | _ => false

theorem not_of_isUpgrade {p : Point} (h : p.isUpgrade = true) :
    p.isLast = false ∧ p.isWebSocket = false := by
  cases p with
  | upgrade handlers => exact ⟨rfl, rfl⟩
  | _ => cases h

end Point

/-- The session ends, or it is on its way to `register_websocket` or behind it: `stop` has reached
it, or need not. -/
def Settled (sess : Session) : Prop :=
  sess.result = some false ∨ sess.point.isLast = true ∨ sess.point.isWebSocket = true ∨
    sess.point.isUpgrade = true ∧ sess.result = some true

/-- The session ends, or its `WebSocket` is closed, and it begins no read on the way. -/
structure Quiet (sess : Session) : Prop where
  ends : sess.result = some false ∨ sess.point.isLast = true ∨ sess.point.isWebSocket = true
  noNext : sess.point ≠ .started true
  closed : ∀ app c, sess.ws = some (app, c) → c.state = .wsClosed

theorem Quiet.settled {sess : Session} (h : Quiet sess) : Settled sess := by
  rcases h.ends with hresult | hlast | hws
  · exact Or.inl hresult
  · exact Or.inr (Or.inl hlast)
  · exact Or.inr (Or.inr (Or.inl hws))

/-! ### The steps of a session -/

/-- Before the first operation, or in the middle of a request. -/
def Point.isEarly : Point → Bool
  | .spawned => false
  | .finished => false
  | p => !p.isWebSocket

variable {cfg : ServerConfig} {sess : Session} {o : Outcome}

/-- What a step of a session does. -/
inductive Stepped (sess : Session) : Outcome → Prop
  | begin (hpoint : sess.point = .spawned) (hnone : sess.result = none) :
      Stepped sess { session := { point := .added }, calls := [.addClient] }
  | goOn (p : Point) (reads : ℕ) (hfrom : sess.point.isEarly = true) (hnot : ¬ Settled sess)
      (hto : p.isEarly = true) : Stepped sess { session := { point := p }, reads }
  | write (op : Option WriteOp) (keepAlive : Bool) (hresult : sess.result = some true)
      (hfrom : sess.point = .handler keepAlive ∨ ∃ last, sess.point = .write last keepAlive) :
      Stepped sess (Session.writeFrom op keepAlive)
  | ends (ok : Bool) (hawaits : sess.point.awaits = true) (hnone : sess.result = none) :
      Stepped sess { session := { sess with result := some ok } }
  | finish (hawaits : sess.point.awaits = true) : Stepped sess (Session.finish none)
  | upgrade (app : App) (hpoint : sess.point.isUpgrade = true) (hresult : sess.result = some true) :
      Stepped sess {
        session := { point := .registered, ws := some (app, {}) }
        calls := [.registerWebsocket] }
  | assign (hpoint : sess.point = .registered) :
      Stepped sess { session := { sess with point := .assigned } }
  | start (app : App) (c : Conn) (hpoint : sess.point = .assigned) (hws : sess.ws = some (app, c)) :
      Stepped sess (Session.startWebSocket app c)
  | partRead (app : App) (c : Conn) (hpoint : sess.point = .started false)
      (hws : sess.ws = some (app, c)) (hopen : c.state = .wsOpen) :
      Stepped sess { session := { sess with point := .started true } }
  | nextRead (hpoint : sess.point = .started true) :
      Stepped sess { session := { sess with point := .started false }, reads := 1 }
  | ws (e : Conn.Event) (app : App) (c c' : Conn) (hws : sess.ws = some (app, c))
      (hadmits : sess.point.admits e = true) (hstep : c.step app e = some c') :
      Stepped sess (sess.afterWs app c c')

theorem isEarly_afterRead (cfg : ServerConfig) (req : Request) :
    (Point.ofPhase (Server.afterRead cfg req)).isEarly = true := by
  unfold Server.afterRead
  cases cfg.findWs req.path with
  | none => split_ifs <;> rfl
  | some handlers => split_ifs <;> rfl

/-- Where a coroutine is that has more to read. -/
theorem not_settled {p : Point} (hmore : (p.isLast || p.isWebSocket || p.isUpgrade) = false)
    (hpoint : sess.point = p) (hresult : sess.result ≠ some false) : ¬ Settled sess := by
  obtain ⟨hmore, hupgrade⟩ := Bool.or_eq_false_iff.mp hmore
  obtain ⟨hlast, hws⟩ := Bool.or_eq_false_iff.mp hmore
  rintro (hfalse | hyes | hyes | ⟨hyes, -⟩)
  · exact hresult hfalse
  · rw [hpoint, hlast] at hyes
    cases hyes
  · rw [hpoint, hws] at hyes
    cases hyes
  · rw [hpoint, hupgrade] at hyes
    cases hyes

/-- A coroutine that has more to read goes on. -/
theorem Stepped.goOn_from {p q : Point} {result : Option Bool} (reads : ℕ)
    (hs : sess.point = p ∧ sess.result = result) (hresult : result ≠ some false)
    (hfrom : p.isEarly = true) (hmore : (p.isLast || p.isWebSocket || p.isUpgrade) = false)
    (hto : q.isEarly = true) : Stepped sess { session := { point := q }, reads } := by
  obtain ⟨hpoint, rfl⟩ := hs
  exact .goOn q reads (hpoint ▸ hfrom) (not_settled hmore hpoint hresult) hto

/-- **Every step of a session** is one of these. -/
theorem stepped_of_sessionStep {e : SessionEvent} (h : sessionStep cfg sess e = some o) :
    Stepped sess o := by
  cases e with
  | begin =>
    rw [sessionStep] at h
    split_ifs at h with hs
    obtain rfl := Option.some.inj h
    exact .begin hs.1 hs.2
  | firstOperation =>
    rw [sessionStep] at h
    split_ifs at h with hs hssl
    · obtain rfl := Option.some.inj h
      exact .goOn_from 0 hs (by decide) rfl rfl rfl
    · obtain rfl := Option.some.inj h
      exact .goOn_from 1 hs (by decide) rfl rfl rfl
  | ends ok =>
    rw [sessionStep] at h
    split_ifs at h with hs
    obtain rfl := Option.some.inj h
    exact .ends ok hs.1 hs.2
  | throws =>
    rw [sessionStep] at h
    split_ifs at h with hs
    obtain rfl := Option.some.inj h
    exact .finish hs.1
  | afterHandshake =>
    rw [sessionStep] at h
    split_ifs at h with hs
    obtain rfl := Option.some.inj h
    exact .goOn_from 1 hs (by decide) rfl rfl rfl
  | afterHead req bodyDue =>
    rw [sessionStep] at h
    split_ifs at h with hs hdue
    · obtain rfl := Option.some.inj h
      exact .goOn_from 1 hs (by decide) rfl rfl rfl
    · obtain rfl := Option.some.inj h
      exact .goOn_from 0 hs (by decide) rfl rfl (isEarly_afterRead cfg req)
  | afterBody req =>
    rw [sessionStep] at h
    split_ifs at h with hs
    obtain rfl := Option.some.inj h
    exact .goOn_from 0 hs (by decide) rfl rfl (isEarly_afterRead cfg req)
  | afterHandler op =>
    rw [sessionStep] at h
    split at h
    · rename_i keepAlive hpoint hresult
      split_ifs at h
      obtain rfl := Option.some.inj h
      exact .write op keepAlive hresult (Or.inl hpoint)
    · cases h
  | afterWrite op =>
    rw [sessionStep] at h
    split at h
    · rename_i last keepAlive hpoint hresult
      split_ifs at h
      obtain rfl := Option.some.inj h
      exact .write op keepAlive hresult (Or.inr ⟨last, hpoint⟩)
    · cases h
  | afterRefusal =>
    rw [sessionStep] at h
    split_ifs at h with hs
    obtain rfl := Option.some.inj h
    exact .finish (by rw [hs.1]; rfl)
  | afterUpgrade react =>
    rw [sessionStep] at h
    split at h
    · rename_i handlers hpoint hresult
      obtain rfl := Option.some.inj h
      exact .upgrade _ (by rw [hpoint]; rfl) hresult
    · cases h
  | assign =>
    rw [sessionStep] at h
    split_ifs at h with hs
    obtain rfl := Option.some.inj h
    exact .assign hs
  | startWebSocket =>
    rw [sessionStep] at h
    split at h
    · rename_i app c hpoint hws
      obtain rfl := Option.some.inj h
      exact .start app c hpoint hws
    · cases h
  | partRead =>
    rw [sessionStep] at h
    split at h
    · rename_i app c hpoint hws
      split_ifs at h with hs
      obtain rfl := Option.some.inj h
      exact .partRead app c hpoint hws hs.2
    · cases h
  | nextRead =>
    rw [sessionStep] at h
    split_ifs at h with hs
    obtain rfl := Option.some.inj h
    exact .nextRead hs
  | ws e =>
    rw [sessionStep] at h
    cases hws : sess.ws with
    | none =>
      rw [hws] at h
      cases h
    | some p =>
      rw [hws] at h
      dsimp only at h
      split_ifs at h with hadmits
      obtain ⟨c', hstep, rfl⟩ := Option.map_eq_some_iff.mp h
      exact .ws e p.1 p.2 c' hws hadmits hstep

/-- Where a coroutine that has a `WebSocket` is after a step of it. -/
theorem afterWs_session (sess : Session) (app : App) (c c' : Conn) :
    (sess.afterWs app c c').session = { sess with ws := some (app, c') } ∨
      (sess.afterWs app c c').session = { point := .finished, ws := some (app, c') } := by
  unfold Session.afterWs
  dsimp only
  split_ifs
  · exact Or.inr rfl
  · exact Or.inl rfl

theorem settled_finished (ws : Option (App × Conn)) :
    Settled { point := .finished, ws } :=
  Or.inr (Or.inl rfl)

theorem settled_webSocket {sess : Session} (h : sess.point.isWebSocket = true) : Settled sess :=
  Or.inr (Or.inr (Or.inl h))

/-- What is written when the connection is not kept alive is the last of the session. -/
theorem last_of_settled {keepAlive : Bool} (h : Settled sess) (hresult : sess.result = some true)
    (hfrom : sess.point = .handler keepAlive ∨ ∃ last, sess.point = .write last keepAlive) :
    keepAlive = false := by
  cases keepAlive with
  | false => rfl
  | true =>
    have hnot : ¬ Settled sess := by
      have hne : sess.result ≠ some false := by simp [hresult]
      rcases hfrom with hpoint | ⟨last, hpoint⟩
      · exact not_settled rfl hpoint hne
      · exact not_settled rfl hpoint hne
    exact absurd h hnot

/-- **A settled session** stays settled. -/
theorem Settled.step (h : Settled sess) (hstep : Stepped sess o) : Settled o.session := by
  cases hstep with
  | begin hpoint hnone =>
    exact absurd h (not_settled rfl hpoint (by simp [hnone]))
  | goOn p reads hfrom hnot hto => exact absurd h hnot
  | write op keepAlive hresult hfrom =>
    obtain rfl := last_of_settled h hresult hfrom
    cases op with
    | none => exact settled_finished none
    | some op => exact Or.inr (Or.inl rfl)
  | ends ok hawaits hnone =>
    rcases h with hfalse | hlast | hws | ⟨-, htrue⟩
    · rw [hnone] at hfalse
      cases hfalse
    · exact Or.inr (Or.inl hlast)
    · exact settled_webSocket hws
    · rw [hnone] at htrue
      cases htrue
  | finish hawaits => exact settled_finished none
  | upgrade app hpoint hresult => exact settled_webSocket rfl
  | assign hpoint => exact settled_webSocket rfl
  | start app c hpoint hws =>
    rcases afterWs_session { point := .started false } app c _ with hsess | hsess
    · rw [Session.startWebSocket, hsess]
      exact settled_webSocket rfl
    · rw [Session.startWebSocket, hsess]
      exact settled_finished _
  | partRead app c hpoint hws hopen => exact settled_webSocket rfl
  | nextRead hpoint => exact settled_webSocket rfl
  | ws e app c c' hws hadmits hstep =>
    rcases afterWs_session sess app c c' with hsess | hsess
    · rw [hsess]
      exact h
    · rw [hsess]
      exact settled_finished _

/-- A step of a closed `WebSocket`. -/
theorem Quiet.afterWs (h : Quiet sess) {app : App} {c c' : Conn} (hclosed : c'.state = .wsClosed)
    (hreading : c'.readLoop = .reading → c.readLoop = .reading) :
    Quiet (sess.afterWs app c c').session ∧ (sess.afterWs app c c').reads = 0 := by
  have hws : ∀ app' d, some (app, c') = some (app', d) → d.state = .wsClosed := by
    rintro app' d ⟨rfl, rfl⟩
    exact hclosed
  constructor
  · rcases afterWs_session sess app c c' with hsess | hsess
    · rw [hsess]
      exact ⟨h.ends, h.noNext, hws⟩
    · rw [hsess]
      exact ⟨Or.inr (Or.inl rfl), Point.noConfusion, hws⟩
  · have hreads : ¬ (c.readLoop ≠ .reading ∧ c'.readLoop = .reading) :=
      fun hno => hno.1 (hreading hno.2)
    exact if_neg hreads

/-- A session without a `WebSocket`. -/
theorem closed_of_none (app : App) (c : Conn) (h : none = some (app, c)) : c.state = .wsClosed :=
  absurd h.symm (Option.some_ne_none _)

/-- `WebSocket::start` on a closed `WebSocket` reads nothing. -/
theorem quiet_startWebSocket (app : App) {c : Conn} (hclosed : c.state = .wsClosed) :
    Quiet (Session.startWebSocket app c).session ∧ (Session.startWebSocket app c).reads = 0 := by
  have hc : Conn.NoRead (c.readLoop = .reading) c := ⟨hclosed, id⟩
  have hno := (Conn.keeps_noRead app (c.readLoop = .reading)).start
    (fun _ => ⟨hc.state, hc.readLoop⟩) fun _ => hc
  have hquiet : Quiet { point := .started false } :=
    ⟨Or.inr (Or.inr rfl), by simp, closed_of_none⟩
  exact hquiet.afterWs hno.state hno.readLoop

/-- **A quiet session** stays quiet and begins no read. -/
theorem Quiet.step (h : Quiet sess) (hstep : Stepped sess o) : Quiet o.session ∧ o.reads = 0 := by
  cases hstep with
  | begin hpoint hnone =>
    exact absurd h.settled (not_settled rfl hpoint (by simp [hnone]))
  | goOn p reads hfrom hnot hto => exact absurd h.settled hnot
  | write op keepAlive hresult hfrom =>
    obtain rfl := last_of_settled h.settled hresult hfrom
    cases op with
    | none => exact ⟨⟨Or.inr (Or.inl rfl), Point.noConfusion, closed_of_none⟩, rfl⟩
    | some op => exact ⟨⟨Or.inr (Or.inl rfl), Point.noConfusion, closed_of_none⟩, rfl⟩
  | ends ok hawaits hnone =>
    refine ⟨⟨?_, h.noNext, h.closed⟩, rfl⟩
    rcases h.ends with hfalse | hlast
    · rw [hnone] at hfalse
      cases hfalse
    · exact Or.inr hlast
  | finish hawaits => exact ⟨⟨Or.inr (Or.inl rfl), Point.noConfusion, closed_of_none⟩, rfl⟩
  | upgrade app hpoint hresult =>
    obtain ⟨hnotLast, hnotWs⟩ := Point.not_of_isUpgrade hpoint
    rcases h.ends with hfalse | hlast | hws
    · rw [hresult] at hfalse
      cases hfalse
    · rw [hnotLast] at hlast
      cases hlast
    · rw [hnotWs] at hws
      cases hws
  | assign hpoint => exact ⟨⟨Or.inr (Or.inr rfl), Point.noConfusion, h.closed⟩, rfl⟩
  | start app c hpoint hws => exact quiet_startWebSocket app (h.closed app c hws)
  | partRead app c hpoint hws hopen =>
    rw [h.closed app c hws] at hopen
    cases hopen
  | nextRead hpoint => exact absurd hpoint h.noNext
  | ws e app c c' hws hadmits hstep =>
    have hno := Conn.noRead_step (h.closed app c hws) hstep
    exact h.afterWs hno.state hno.readLoop

/-! ### The registries -/

/-- What holds of the `WebSocket` of a session, if it is `registered`. -/
def SocketInv (registered : Prop) (sess : Session) : Prop :=
  ∀ app c, sess.ws = some (app, c) → c.Cleaned ∧ (c.state = .wsOpen → registered)

theorem socketInv_of_none {registered : Prop} (h : sess.ws = none) :
    SocketInv registered sess := by
  intro app c hws
  rw [h] at hws
  cases hws

/-- What the registries need to know of a step. -/
structure OutcomeSpec (sess : Session) (o : Outcome) : Prop where
  begun : o.session.point ≠ .spawned
  /-- An entry of `client_cancel_` from `add_client` to the end. -/
  cancel : o.session.point ≠ .finished → .removeClient ∉ o.calls ∧
    (sess.point ≠ .spawned ∧ sess.point ≠ .finished ∨ .addClient ∈ o.calls)
  /-- An entry of `websockets_` as long as the `WebSocket` is open. -/
  socket : ∀ {registered : Prop}, SocketInv registered sess → ∀ app c,
    o.session.ws = some (app, c) → c.Cleaned ∧ (c.state = .wsOpen →
      .removeWebsocket ∉ o.calls ∧ (registered ∨ .registerWebsocket ∈ o.calls))

/-- The coroutine has finished without a `WebSocket`. -/
theorem outcomeSpec_finish : OutcomeSpec sess (Session.finish none) := by
  refine ⟨Point.noConfusion, fun hno => absurd rfl hno, ?_⟩
  intro registered _ app c hc
  cases hc

/-- Steps that leave the registries alone. -/
theorem outcomeSpec_of_nil (hcalls : o.calls = []) (hfrom : sess.point ≠ .spawned)
    (hnot : sess.point ≠ .finished ∨ o.session.point = .finished)
    (hto : o.session.point ≠ .spawned)
    (hws : o.session.ws = none ∨ o.session.ws = sess.ws) : OutcomeSpec sess o where
  begun := hto
  cancel hfinished := by
    rw [hcalls]
    exact ⟨List.not_mem_nil, Or.inl ⟨hfrom, hnot.resolve_right hfinished⟩⟩
  socket {registered} h app c hc := by
    rw [hcalls]
    rcases hws with hnone | hsame
    · rw [hnone] at hc
      cases hc
    · obtain ⟨hcleaned, hopen⟩ := h app c (hsame ▸ hc)
      exact ⟨hcleaned, fun hc => ⟨List.not_mem_nil, Or.inl (hopen hc)⟩⟩

theorem mem_calls_afterWs (sess : Session) (app : App) (c c' : Conn) :
    (.removeClient ∈ (sess.afterWs app c c').calls →
      (sess.afterWs app c c').session.point = .finished) ∧
    (.removeWebsocket ∈ (sess.afterWs app c c').calls → c'.cleanedUp = true) := by
  unfold Session.afterWs
  dsimp only
  by_cases hcleaned : c'.cleanedUp = true
  · refine ⟨?_, fun _ => hcleaned⟩
    split_ifs <;> simp
  · rw [if_neg (by simp [hcleaned])]
    split_ifs <;> simp

/-- A step of a `WebSocket`, of a session that is then at `base`. -/
theorem outcomeSpec_afterWs {base : Session} {app : App} {c c' : Conn}
    (hfrom : sess.point ≠ .spawned) (hnot : sess.point = .finished → base.point = .finished)
    (hbase : base.point ≠ .spawned) (hws : sess.ws = some (app, c))
    (hcleaned : c.Cleaned → c'.Cleaned) (hopen : c'.state = .wsOpen → c.state = .wsOpen) :
    OutcomeSpec sess (base.afterWs app c c') := by
  have hpoint : (base.afterWs app c c').session.point = base.point ∨
      (base.afterWs app c c').session.point = .finished := by
    rcases afterWs_session base app c c' with hsess | hsess
    · exact Or.inl (by rw [hsess])
    · exact Or.inr (by rw [hsess])
  have hsocket : (base.afterWs app c c').session.ws = some (app, c') := by
    rcases afterWs_session base app c c' with hsess | hsess
    · rw [hsess]
    · rw [hsess]
  obtain ⟨hremove, hunregister⟩ := mem_calls_afterWs base app c c'
  refine ⟨?_, ?_, ?_⟩
  · rcases hpoint with heq | heq
    · rwa [heq]
    · rw [heq]
      exact Point.noConfusion
  · intro hfinished
    refine ⟨fun hmem => hfinished (hremove hmem), Or.inl ⟨hfrom, fun hno => ?_⟩⟩
    rcases hpoint with heq | heq
    · exact hfinished (heq.trans (hnot hno))
    · exact hfinished heq
  · intro registered h app' d hd
    rw [hsocket] at hd
    obtain ⟨rfl, rfl⟩ := Prod.mk.inj (Option.some.inj hd)
    obtain ⟨hc, hregistered⟩ := h app c hws
    refine ⟨hcleaned hc, fun hopen' => ⟨fun hmem => ?_, Or.inl (hregistered (hopen hopen'))⟩⟩
    -- only `close` unregisters
    rw [hcleaned hc (hunregister hmem)] at hopen'
    cases hopen'

/-- `WebSocket::start` keeps what `close` and the coroutines keep. -/
theorem startWebSocket_conn (app : App) (c : Conn) : ∃ c', Session.startWebSocket app c
    = Session.afterWs { point := .started false } app c c' ∧ (c.Cleaned → c'.Cleaned) ∧
      (c'.state = .wsOpen → c.state = .wsOpen) := by
  refine ⟨_, rfl, ?_, ?_⟩
  · intro hc
    exact (Conn.keeps_cleaned app).start (fun _ => hc) fun _ => hc
  · intro hopen
    cases hs : c.state with
    | wsOpen => rfl
    | wsClosed =>
      have hstill := (Conn.keeps_shutdown app c.shutdown).start (fun _ => ⟨hs, rfl⟩)
        fun _ => ⟨hs, rfl⟩
      rw [hstill.1] at hopen
      cases hopen

/-- A point of which something holds that does not hold at the ends. -/
theorem ne_ends {f : Point → Bool} (hspawned : f .spawned = false) (hfinished : f .finished = false)
    {p : Point} (h : f p = true) : p ≠ .spawned ∧ p ≠ .finished := by
  constructor
  · rintro rfl
    rw [hspawned] at h
    cases h
  · rintro rfl
    rw [hfinished] at h
    cases h

/-- **Every step** meets the spec. -/
theorem outcomeSpec_of_stepped (hstep : Stepped sess o) : OutcomeSpec sess o := by
  cases hstep with
  | begin hpoint hnone =>
    refine ⟨Point.noConfusion, fun _ => ⟨by simp, Or.inr (by simp)⟩, ?_⟩
    intro registered _ app c hc
    cases hc
  | goOn p reads hfrom hnot hto =>
    obtain ⟨hspawned, hfinished⟩ := ne_ends rfl rfl hfrom
    exact outcomeSpec_of_nil rfl hspawned (Or.inl hfinished) (ne_ends rfl rfl hto).1 (Or.inl rfl)
  | write op keepAlive hresult hfrom =>
    have hpoint : sess.point ≠ .spawned ∧ sess.point ≠ .finished := by
      rcases hfrom with heq | ⟨last, heq⟩
      · simp [heq]
      · simp [heq]
    cases op with
    | some op =>
      exact outcomeSpec_of_nil rfl hpoint.1 (Or.inl hpoint.2) Point.noConfusion (Or.inl rfl)
    | none =>
      cases keepAlive with
      | true =>
        exact outcomeSpec_of_nil rfl hpoint.1 (Or.inl hpoint.2) Point.noConfusion (Or.inl rfl)
      | false => exact outcomeSpec_finish
  | ends ok hawaits hnone =>
    obtain ⟨hspawned, hfinished⟩ := ne_ends rfl rfl hawaits
    exact outcomeSpec_of_nil rfl hspawned (Or.inl hfinished) hspawned (Or.inr rfl)
  | finish hawaits => exact outcomeSpec_finish
  | upgrade app hpoint hresult =>
    refine ⟨Point.noConfusion, fun _ => ⟨by simp, Or.inl ⟨?_, ?_⟩⟩, ?_⟩
    · intro hno
      rw [hno] at hpoint
      cases hpoint
    · intro hno
      rw [hno] at hpoint
      cases hpoint
    · intro registered _ app' c hc
      obtain ⟨rfl, rfl⟩ := Prod.mk.inj (Option.some.inj hc)
      exact ⟨Bool.noConfusion, fun _ => ⟨by simp, Or.inr (by simp)⟩⟩
  | assign hpoint =>
    exact outcomeSpec_of_nil rfl (by simp [hpoint]) (Or.inl (by simp [hpoint])) Point.noConfusion
      (Or.inr rfl)
  | start app c hpoint hws =>
    obtain ⟨c', heq, hcleaned, hopen⟩ := startWebSocket_conn app c
    rw [heq]
    exact outcomeSpec_afterWs (by simp [hpoint]) (by simp [hpoint]) Point.noConfusion hws hcleaned
      hopen
  | partRead app c hpoint hws hopen =>
    exact outcomeSpec_of_nil rfl (by simp [hpoint]) (Or.inl (by simp [hpoint])) Point.noConfusion
      (Or.inr rfl)
  | nextRead hpoint =>
    exact outcomeSpec_of_nil rfl (by simp [hpoint]) (Or.inl (by simp [hpoint])) Point.noConfusion
      (Or.inr rfl)
  | ws e app c c' hws hadmits hstep =>
    have hfrom : sess.point ≠ .spawned := by
      intro hno
      rw [hno] at hadmits
      cases e <;> cases hadmits
    exact outcomeSpec_afterWs hfrom id hfrom hws (fun hc => Conn.cleaned_step hc hstep)
      (Conn.open_of_step hstep)

/-! ### The server -/

namespace State

variable {s s' : State} {id : ℕ}

/-- What the calls of the client `id` do to the registries. -/
structure Called (id : ℕ) (calls : List RegistryCall) (s s' : State) : Prop where
  sessions : s'.sessions = s.sessions
  acceptor : s'.acceptor = s.acceptor
  stop : s'.stop = s.stop
  readsBegun : s'.readsBegun = s.readsBegun
  others : ∀ j, j ≠ id → (j ∈ s'.clientCancel ↔ j ∈ s.clientCancel) ∧
    (j ∈ s'.websockets ↔ j ∈ s.websockets)
  cancel : .removeClient ∉ calls → id ∈ s.clientCancel ∨ .addClient ∈ calls → id ∈ s'.clientCancel
  socket : .removeWebsocket ∉ calls → id ∈ s.websockets ∨ .registerWebsocket ∈ calls →
    id ∈ s'.websockets

theorem called_call (id : ℕ) (k : RegistryCall) (s : State) : Called id [k] s (s.call id k) := by
  cases k with
  | addClient =>
    exact ⟨rfl, rfl, rfl, rfl, fun j hj => ⟨by simp [call, hj], Iff.rfl⟩, by simp [call],
      by simp [call]⟩
  | removeClient =>
    exact ⟨rfl, rfl, rfl, rfl, fun j hj => ⟨by simp [call, hj], Iff.rfl⟩, by simp [call],
      by simp [call]⟩
  | registerWebsocket =>
    exact ⟨rfl, rfl, rfl, rfl, fun j hj => ⟨Iff.rfl, by simp [call, hj]⟩, by simp [call],
      by simp [call]⟩
  | removeWebsocket =>
    exact ⟨rfl, rfl, rfl, rfl, fun j hj => ⟨Iff.rfl, by simp [call, hj]⟩, by simp [call],
      by simp [call]⟩

theorem Called.trans {t : State} {ks ks' : List RegistryCall} (h : Called id ks s t)
    (h' : Called id ks' t s') : Called id (ks ++ ks') s s' where
  sessions := h'.sessions.trans h.sessions
  acceptor := h'.acceptor.trans h.acceptor
  stop := h'.stop.trans h.stop
  readsBegun := h'.readsBegun.trans h.readsBegun
  others j hj := ⟨(h'.others j hj).1.trans (h.others j hj).1,
    (h'.others j hj).2.trans (h.others j hj).2⟩
  cancel hno hyes := by
    rw [List.mem_append, not_or] at hno
    apply h'.cancel hno.2
    rw [List.mem_append, ← or_assoc] at hyes
    exact hyes.imp_left (h.cancel hno.1)
  socket hno hyes := by
    rw [List.mem_append, not_or] at hno
    apply h'.socket hno.2
    rw [List.mem_append, ← or_assoc] at hyes
    exact hyes.imp_left (h.socket hno.1)

theorem called_foldl (id : ℕ) (calls : List RegistryCall) (s : State) :
    Called id calls s (calls.foldl (call id) s) := by
  induction calls generalizing s with
  | nil =>
    exact ⟨rfl, rfl, rfl, rfl, fun _ _ => ⟨Iff.rfl, Iff.rfl⟩, fun _ h => h.resolve_right (by simp),
      fun _ h => h.resolve_right (by simp)⟩
  | cons k ks ih => exact (called_call id k s).trans (ih (s.call id k))

end State

/-- **Every `emit` finds something to act on**: the one of `server_cancel_` the `async_accept`, the
copy of the ids every accepted connection, the one of a client an operation of its session, if the
session is not settled anyway; and `close_websockets` finds no session that is about to register,
and no read loop in the middle of a frame. -/
def Guard (s : State) : Event → Prop
  | .emitServer => s.acceptor = .accepting
  | .copyIds => ∀ id sess, s.sessions id = some sess → sess.point ≠ .spawned
  | .emitClient id => ∀ sess, s.sessions id = some sess →
      Settled sess ∨ sess.point.bound = true ∧ sess.result = none
  | .closeWebsockets => ∀ id sess, s.sessions id = some sess →
      ¬ (sess.point.isUpgrade = true ∧ sess.result = some true) ∧ sess.point ≠ .started true
  | _ => True

/-- The registries, and how far `stop` has come. -/
structure Inv (s : State) : Prop where
  cancel : ∀ id sess, s.sessions id = some sess → sess.point ≠ .spawned → sess.point ≠ .finished →
    id ∈ s.clientCancel
  socket : ∀ id sess, s.sessions id = some sess → SocketInv (id ∈ s.websockets) sess
  acceptor : s.stop ≠ .notCalled → s.acceptor = .aborted ∨ s.acceptor = .ended
  emitting : ∀ ids, s.stop = .emitting ids → ∀ id sess, s.sessions id = some sess →
    id ∈ ids ∨ Settled sess
  closed : s.stop = .closed → ∀ id sess, s.sessions id = some sess → Quiet sess

variable {s s' : State} {id : ℕ}

/-- `do_accept` goes on to wait for a client, or accept one, only before `stop`. -/
theorem Inv.stop_eq_notCalled (h : Inv s) (haborted : s.acceptor ≠ .aborted)
    (hended : s.acceptor ≠ .ended) : s.stop = .notCalled := by
  by_contra hcalled
  rcases h.acceptor hcalled with hno | hno
  · exact haborted hno
  · exact hended hno

theorem lookup_update {f : ℕ → Option Session} {j : ℕ} {sess' : Session}
    (h : Function.update f id (some sess) j = some sess') :
    j = id ∧ sess' = sess ∨ j ≠ id ∧ f j = some sess' := by
  by_cases hj : j = id
  · rw [hj, Function.update_self] at h
    exact Or.inl ⟨hj, (Option.some.inj h).symm⟩
  · rw [Function.update_of_ne hj] at h
    exact Or.inr ⟨hj, h⟩

/-- **A step of a session.** -/
theorem Inv.apply (h : Inv s) (hsess : s.sessions id = some sess) (hstep : Stepped sess o) :
    Inv (s.apply id o) := by
  have hspec := outcomeSpec_of_stepped hstep
  have hcalled := State.called_foldl id o.calls s
  have hlookup : ∀ {j sess'}, (s.apply id o).sessions j = some sess' →
      j = id ∧ sess' = o.session ∨ j ≠ id ∧ s.sessions j = some sess' := by
    intro j sess' hj
    rw [← hcalled.sessions]
    exact lookup_update hj
  have hstop : (s.apply id o).stop = s.stop := hcalled.stop
  have hacceptor : (s.apply id o).acceptor = s.acceptor := hcalled.acceptor
  refine ⟨?_, ?_, ?_, ?_, ?_⟩
  · intro j sess' hj hspawned hfinished
    rcases hlookup hj with ⟨rfl, rfl⟩ | ⟨hne, hold⟩
    · obtain ⟨hremove, hfrom⟩ := hspec.cancel hfinished
      apply hcalled.cancel hremove
      exact hfrom.imp_left fun hfrom => h.cancel j sess hsess hfrom.1 hfrom.2
    · exact (hcalled.others j hne).1.mpr (h.cancel j sess' hold hspawned hfinished)
  · intro j sess' hj app c hc
    rcases hlookup hj with ⟨rfl, rfl⟩ | ⟨hne, hold⟩
    · obtain ⟨hcleaned, hopen⟩ := hspec.socket (h.socket j sess hsess) app c hc
      refine ⟨hcleaned, fun hyes => ?_⟩
      obtain ⟨hno, hregistered⟩ := hopen hyes
      exact hcalled.socket hno hregistered
    · obtain ⟨hcleaned, hopen⟩ := h.socket j sess' hold app c hc
      exact ⟨hcleaned, fun hyes => (hcalled.others j hne).2.mpr (hopen hyes)⟩
  · rw [hstop, hacceptor]
    exact h.acceptor
  · intro ids hids j sess' hj
    rw [hstop] at hids
    rcases hlookup hj with ⟨rfl, rfl⟩ | ⟨hne, hold⟩
    · exact (h.emitting ids hids j sess hsess).imp_right fun hsettled => hsettled.step hstep
    · exact h.emitting ids hids j sess' hold
  · intro hclosed j sess' hj
    rw [hstop] at hclosed
    rcases hlookup hj with ⟨rfl, rfl⟩ | ⟨hne, hold⟩
    · exact ((h.closed hclosed j sess hsess).step hstep).1
    · exact h.closed hclosed j sess' hold

/-- `do_accept` spawns a session, which it can do only before `stop`. -/
theorem Inv.spawn (h : Inv s) (haccepted : s.acceptor = .accepted) :
    Inv ({ s with acceptor := .accepting, clientId := s.clientId + 1 }.setSession
      (s.clientId + 1) { point := .spawned }) := by
  have hnot : s.stop = .notCalled :=
    h.stop_eq_notCalled (by simp [haccepted]) (by simp [haccepted])
  have hlookup : ∀ {j sess'}, Function.update s.sessions (s.clientId + 1)
      (some { point := .spawned }) j = some sess' →
        j = s.clientId + 1 ∧ sess' = { point := .spawned } ∨
          j ≠ s.clientId + 1 ∧ s.sessions j = some sess' := lookup_update
  refine ⟨?_, ?_, fun hno => absurd hnot hno, ?_, ?_⟩
  · intro j sess' hj hspawned hfinished
    rcases hlookup hj with ⟨rfl, rfl⟩ | ⟨-, hold⟩
    · exact absurd rfl hspawned
    · exact h.cancel j sess' hold hspawned hfinished
  · intro j sess' hj
    rcases hlookup hj with ⟨rfl, rfl⟩ | ⟨-, hold⟩
    · exact socketInv_of_none rfl
    · exact h.socket j sess' hold
  · intro ids hids
    rw [State.setSession, hnot] at hids
    cases hids
  · intro hclosed
    rw [State.setSession, hnot] at hclosed
    cases hclosed

/-- `emit` leaves a session settled if it finds something to act on. -/
theorem settled_emitted (h : Settled sess ∨ sess.point.bound = true ∧ sess.result = none) :
    Settled (State.emitted sess) := by
  unfold State.emitted
  split_ifs with hbound hcloser
  · exact Or.inl rfl
  · rcases h with hsettled | hno
    · exact hsettled
    · exact absurd hno hbound
  · exact h.resolve_right hbound

theorem point_emitted (sess : Session) : (State.emitted sess).point = sess.point := by
  unfold State.emitted
  split_ifs
  · rfl
  · rfl
  · rfl

theorem SocketInv.emitted {registered : Prop} (h : SocketInv registered sess) :
    SocketInv registered (State.emitted sess) := by
  unfold State.emitted
  split_ifs
  · exact h
  · intro app c hc
    obtain ⟨⟨app', c'⟩, hws, heq⟩ := Option.map_eq_some_iff.mp hc
    obtain ⟨rfl, rfl⟩ := Prod.mk.inj heq
    exact h app' c' hws
  · exact h

/-- The session of an `emit_client`. -/
theorem lookup_emitClient {j : ℕ} {sess' : Session}
    (h : (s.emitClient id).sessions j = some sess') : s.sessions j = some sess' ∧
      (j = id → id ∉ s.clientCancel) ∨ j = id ∧ ∃ sess, s.sessions id = some sess ∧
        sess' = State.emitted sess := by
  unfold State.emitClient at h
  split_ifs at h with hmem
  · cases hsess : s.sessions id with
    | none =>
      rw [hsess] at h
      refine Or.inl ⟨h, ?_⟩
      rintro rfl
      rw [hsess] at h
      cases h
    | some sess =>
      rw [hsess] at h
      rcases lookup_update h with ⟨rfl, rfl⟩ | ⟨hne, hold⟩
      · exact Or.inr ⟨rfl, sess, rfl, rfl⟩
      · exact Or.inl ⟨hold, fun hj => absurd hj hne⟩
  · exact Or.inl ⟨h, fun _ => hmem⟩

theorem emitClient_eq (s : State) (id : ℕ) : ∃ sessions,
    s.emitClient id = { s with sessions } := by
  unfold State.emitClient
  split_ifs
  · cases s.sessions id with
    | none => exact ⟨s.sessions, rfl⟩
    | some sess => exact ⟨_, rfl⟩
  · exact ⟨s.sessions, rfl⟩

/-- **One `emit_client`** leaves one id less to settle. -/
theorem Inv.emitClient (h : Inv s) {ids : Finset ℕ} (hids : s.stop = .emitting ids)
    (hguard : Guard s (.emitClient id)) :
    Inv { s.emitClient id with stop := .emitting (ids.erase id) } := by
  obtain ⟨sessions, heq⟩ := emitClient_eq s id
  have hlookup : ∀ {j sess'}, sessions j = some sess' → s.sessions j = some sess' ∧
      (j = id → id ∉ s.clientCancel) ∨ j = id ∧ ∃ sess, s.sessions id = some sess ∧
        sess' = State.emitted sess := by
    intro j sess' hj
    apply lookup_emitClient
    rw [heq]
    exact hj
  rw [heq]
  refine ⟨?_, ?_, ?_, ?_, ?_⟩
  · intro j sess' hj hspawned hfinished
    rcases hlookup hj with ⟨hold, -⟩ | ⟨rfl, sess, hsess, rfl⟩
    · exact h.cancel j sess' hold hspawned hfinished
    · rw [point_emitted] at hspawned hfinished
      exact h.cancel j sess hsess hspawned hfinished
  · intro j sess' hj
    rcases hlookup hj with ⟨hold, -⟩ | ⟨rfl, sess, hsess, rfl⟩
    · exact h.socket j sess' hold
    · exact (h.socket j sess hsess).emitted
  · intro _
    exact h.acceptor (by simp [hids])
  · rintro ids' ⟨rfl⟩ j sess' hj
    rcases hlookup hj with ⟨hold, hgone⟩ | ⟨rfl, sess, hsess, rfl⟩
    · by_cases hj' : j = id
      · -- it has been removed in the meantime
        right
        subst hj'
        refine (hguard sess' hold).resolve_right fun hbound => ?_
        obtain ⟨hspawned, hfinished⟩ := ne_ends rfl rfl hbound.1
        exact hgone rfl (h.cancel j sess' hold hspawned hfinished)
      · exact (h.emitting ids hids j sess' hold).imp_left fun hmem =>
          Finset.mem_erase.mpr ⟨hj', hmem⟩
    · exact Or.inr (settled_emitted (hguard sess hsess))
  · intro hclosed
    cases hclosed

theorem lookup_closeWebsockets {j : ℕ} {sess' : Session}
    (h : s.closeWebsockets.sessions j = some sess') : ∃ sess, s.sessions j = some sess ∧
      (j ∈ s.websockets ∧ sess' = State.closeWebsocket sess ∨ j ∉ s.websockets ∧ sess' = sess) := by
  have hj : (if j ∈ s.websockets then (s.sessions j).map State.closeWebsocket else s.sessions j)
      = some sess' := h
  split_ifs at hj with hmem
  · obtain ⟨sess, hsess, rfl⟩ := Option.map_eq_some_iff.mp hj
    exact ⟨sess, hsess, Or.inl ⟨hmem, rfl⟩⟩
  · exact ⟨sess', hj, Or.inr ⟨hmem, rfl⟩⟩

/-- **`close_websockets`** closes every `WebSocket` that there is. -/
theorem Inv.closed_closeWebsockets (h : Inv s) {j : ℕ} {sess' : Session}
    (hj : s.closeWebsockets.sessions j = some sess') (app : App) (c : Conn)
    (hc : sess'.ws = some (app, c)) : c.state = .wsClosed := by
  obtain ⟨sess, hsess, ⟨hmem, rfl⟩ | ⟨hmem, rfl⟩⟩ := lookup_closeWebsockets hj
  · obtain ⟨⟨app', c'⟩, -, heq⟩ := Option.map_eq_some_iff.mp hc
    obtain ⟨rfl, rfl⟩ := Prod.mk.inj heq
    exact Conn.close_state none 1001 _
  · cases hs : c.state with
    | wsClosed => rfl
    | wsOpen => exact absurd ((h.socket j sess' hsess app c hc).2 hs) hmem

theorem Inv.closeWebsockets (h : Inv s) (hstop : s.stop = .emitting ∅)
    (hguard : Guard s .closeWebsockets) : Inv { s.closeWebsockets with stop := .closed } := by
  have hclosed : ∀ {j sess'}, s.closeWebsockets.sessions j = some sess' → ∀ app c,
      sess'.ws = some (app, c) → c.state = .wsClosed := fun hj => h.closed_closeWebsockets hj
  have hpoint : ∀ {j sess'}, s.closeWebsockets.sessions j = some sess' → ∃ sess,
      s.sessions j = some sess ∧ sess'.point = sess.point ∧ sess'.result = sess.result := by
    intro j sess' hj
    obtain ⟨sess, hsess, ⟨-, rfl⟩ | ⟨-, rfl⟩⟩ := lookup_closeWebsockets hj
    · exact ⟨sess, hsess, rfl, rfl⟩
    · exact ⟨sess', hsess, rfl, rfl⟩
  refine ⟨?_, ?_, ?_, ?_, ?_⟩
  · intro j sess' hj hspawned hfinished
    obtain ⟨sess, hsess, hsame, -⟩ := hpoint hj
    rw [hsame] at hspawned hfinished
    exact h.cancel j sess hsess hspawned hfinished
  · intro j sess' hj app c hc
    refine ⟨fun _ => hclosed hj app c hc, fun hopen => ?_⟩
    rw [hclosed hj app c hc] at hopen
    cases hopen
  · intro _
    exact h.acceptor (by simp [hstop])
  · rintro ids ⟨⟩
  · intro _ j sess' hj
    obtain ⟨sess, hsess, hsame, hresult⟩ := hpoint hj
    obtain ⟨hupgrade, hnext⟩ := hguard j sess hsess
    refine ⟨?_, hsame ▸ hnext, hclosed hj⟩
    rw [hsame, hresult]
    rcases (h.emitting ∅ hstop j sess hsess).resolve_left (Finset.notMem_empty j) with
      hfalse | hlast | hws | hno
    · exact Or.inl hfalse
    · exact Or.inr (Or.inl hlast)
    · exact Or.inr (Or.inr hws)
    · exact absurd hno hupgrade

/-! ### Every run -/

theorem Inv.start : Inv {} where
  cancel _ _ hno := by cases hno
  socket _ _ hno := by cases hno
  acceptor hno := absurd rfl hno
  emitting _ hno := by cases hno
  closed hno := by cases hno

/-- **Every guarded step** keeps the invariant. -/
theorem Inv.step (h : Inv s) {e : Event} (hguard : Guard s e)
    (hstep : Stop.step cfg s e = some s') : Inv s' := by
  cases e with
  | accept =>
    rw [Stop.step] at hstep
    split_ifs at hstep with haccepting
    obtain rfl := Option.some.inj hstep
    refine ⟨h.cancel, h.socket, ?_, h.emitting, h.closed⟩
    intro hcalled
    exact absurd (h.stop_eq_notCalled (by simp [haccepting]) (by simp [haccepting])) hcalled
  | acceptorResumes =>
    rw [Stop.step] at hstep
    split at hstep
    · rename_i haccepted
      obtain rfl := Option.some.inj hstep
      exact h.spawn haccepted
    · obtain rfl := Option.some.inj hstep
      exact ⟨h.cancel, h.socket, fun _ => Or.inr rfl, h.emitting, h.closed⟩
    · cases hstep
  | session id e =>
    obtain ⟨sess, hsess, hstep⟩ := Option.bind_eq_some_iff.mp hstep
    obtain ⟨o, ho, rfl⟩ := Option.map_eq_some_iff.mp hstep
    exact h.apply hsess (stepped_of_sessionStep ho)
  | emitServer =>
    have haccepting : s.acceptor = .accepting := hguard
    rw [Stop.step, if_pos haccepting] at hstep
    split_ifs at hstep
    obtain rfl := Option.some.inj hstep
    refine ⟨h.cancel, h.socket, fun _ => Or.inl rfl, ?_, ?_⟩
    · rintro ids ⟨⟩
    · rintro ⟨⟩
  | copyIds =>
    rw [Stop.step] at hstep
    split_ifs at hstep with hstop
    obtain rfl := Option.some.inj hstep
    refine ⟨h.cancel, h.socket, fun _ => h.acceptor (by simp [hstop]), ?_, ?_⟩
    · rintro ids ⟨rfl⟩ id sess hsess
      by_cases hfinished : sess.point = .finished
      · exact Or.inr (Or.inr (Or.inl (by rw [hfinished]; rfl)))
      · exact Or.inl (h.cancel id sess hsess (hguard id sess hsess) hfinished)
    · rintro ⟨⟩
  | emitClient id =>
    rw [Stop.step] at hstep
    split at hstep
    · rename_i ids hids
      split_ifs at hstep
      obtain rfl := Option.some.inj hstep
      exact h.emitClient hids hguard
    · cases hstep
  | closeWebsockets =>
    rw [Stop.step] at hstep
    split_ifs at hstep with hstop
    obtain rfl := Option.some.inj hstep
    exact h.closeWebsockets hstop hguard

theorem Inv.run (h : Inv s) {es : List Event} (hguard : Guarded (Stop.step cfg) Guard s es)
    (hrun : Runs.run (Stop.step cfg) s es = some s') : Inv s' :=
  guarded_invariant (fun hinv hok hstep => hinv.step hok hstep) h hguard hrun

/-- No step begins a read of a client socket, and no open `WebSocket` is registered. -/
structure Stopped (cfg : ServerConfig) (s : State) : Prop where
  reads : ∀ e s', Stop.step cfg s e = some s' → s'.readsBegun = s.readsBegun
  websockets : ∀ id ∈ s.websockets, ∀ sess app c, s.sessions id = some sess →
    sess.ws = some (app, c) → c.state ≠ .wsOpen

/-- After `close_websockets` no step begins a read. -/
theorem Inv.readsBegun_eq (h : Inv s) (hclosed : s.stop = .closed) {e : Event}
    (hstep : Stop.step cfg s e = some s') : s'.readsBegun = s.readsBegun := by
  cases e with
  | accept =>
    rw [Stop.step] at hstep
    split_ifs at hstep
    obtain rfl := Option.some.inj hstep
    rfl
  | acceptorResumes =>
    rw [Stop.step] at hstep
    split at hstep
    · obtain rfl := Option.some.inj hstep
      rfl
    · obtain rfl := Option.some.inj hstep
      rfl
    · cases hstep
  | session id e =>
    obtain ⟨sess, hsess, hstep⟩ := Option.bind_eq_some_iff.mp hstep
    obtain ⟨o, ho, rfl⟩ := Option.map_eq_some_iff.mp hstep
    have hquiet : Quiet sess := h.closed hclosed id sess hsess
    show (o.calls.foldl (State.call id) s).readsBegun + o.reads = s.readsBegun
    rw [(State.called_foldl id o.calls s).readsBegun,
      (hquiet.step (stepped_of_sessionStep ho)).2, Nat.add_zero]
  | emitServer | copyIds | emitClient id | closeWebsockets =>
    rw [Stop.step, hclosed] at hstep
    cases hstep

/-- **`stop` reaches every session**, if every `emit` finds something to act on: in every state
after `close_websockets`. -/
theorem stopped_of_guarded (cfg : ServerConfig) {es : List Event} {s : State}
    (hguard : Guarded (Stop.step cfg) Guard {} es) (hrun : Runs.run (Stop.step cfg) {} es = some s)
    (hclosed : s.stop = .closed) : Stopped cfg s := by
  have h : Inv s := Inv.start.run hguard hrun
  constructor
  · intro e s' hstep
    exact h.readsBegun_eq hclosed hstep
  · intro id _ sess app c hsess hc hopen
    rw [(h.closed hclosed id sess hsess).closed app c hc] at hopen
    cases hopen

/-- There is one session at most. -/
def Alone (id : ℕ) (sessions : ℕ → Option Session) : Prop :=
  ∀ j, j ≠ id → sessions j = none

theorem Alone.update {f : ℕ → Option Session} (h : Alone id f) (v : Option Session) :
    Alone id (Function.update f id v) :=
  fun j hj => (Function.update_of_ne hj v f).trans (h j hj)

theorem Alone.eq {f : ℕ → Option Session} {j : ℕ} {sess' : Session} (h : Alone id f)
    (sess : Session) (hj : Function.update f id (some sess) j = some sess') : sess' = sess := by
  rcases lookup_update hj with ⟨-, heq⟩ | ⟨hne, hold⟩
  · exact heq
  · rw [h j hne] at hold
    cases hold

/-- A server without WebSocket routes. -/
def plainServer : ServerConfig where
  useSsl := false
  findWs _ := none

/-- `stop` finds a client whose request is awaited. -/
def stopWhileReading : List Event :=
  [.accept, .acceptorResumes, .session 1 .begin, .session 1 .firstOperation, .emitServer, .copyIds,
    .emitClient 1, .closeWebsockets]

theorem stopped_of_guarded_whileReading : ∃ s, Runs.run (Stop.step plainServer) {} stopWhileReading
    = some s ∧ Stopped plainServer s := by
  refine ⟨_, rfl, @stopped_of_guarded plainServer stopWhileReading _ ?_ rfl rfl⟩
  iterate 4 refine (guarded_cons_of_step rfl).mpr ⟨trivial, ?_⟩
  refine (guarded_cons_of_step rfl).mpr ⟨rfl, ?_⟩
  have halone : Alone 1 (Function.update (Function.update (fun _ => none) 1
      (some { point := .spawned })) 1 (some { point := .added })) :=
    Alone.update (Alone.update (fun _ _ => rfl) _) _
  refine (guarded_cons_of_step rfl).mpr ⟨?_, ?_⟩
  · intro id sess hsess
    obtain rfl := halone.eq { point := .readHead } hsess
    exact Point.noConfusion
  · refine (guarded_cons_of_step rfl).mpr ⟨?_, ?_⟩
    · intro sess hsess
      obtain rfl : { point := .readHead } = sess := Option.some.inj hsess
      exact Or.inr ⟨rfl, rfl⟩
    · refine (guarded_cons_of_step rfl).mpr ⟨?_, trivial⟩
      intro id sess hsess
      obtain rfl := (halone.update _).eq { point := .readHead, result := some false } hsess
      exact ⟨fun hno => Bool.noConfusion hno.1, Point.noConfusion⟩

/-- `stop` finds a client whose handler is running, and which is kept alive. -/
def stopWhileHandling : List Event :=
  [.accept, .acceptorResumes, .session 1 .begin, .session 1 .firstOperation,
    .session 1 (.ends true), .session 1 (.afterHead {} false), .emitServer, .copyIds, .emitClient 1,
    .closeWebsockets, .session 1 (.ends true), .session 1 (.afterHandler (some .response)),
    .session 1 (.ends true)]

theorem not_stopped_whileHandling : ¬ ∀ (cfg : ServerConfig) (es : List Event) (s : State),
    Runs.run (Stop.step cfg) {} es = some s → s.stop = .closed → Stopped cfg s := by
  intro h
  have hreads := (h plainServer stopWhileHandling _ rfl rfl).reads
    (.session 1 (.afterWrite none)) _ rfl
  exact absurd hreads (by decide)

end Stop

end WebSocketsLib
