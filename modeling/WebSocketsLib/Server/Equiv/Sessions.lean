import WebSocketsLib.Lib.Runs
import WebSocketsLib.Server.Sessions
import WebSocketsLib.WebSocket.Equiv.Connection

/-!
# The registries after a session

`released_of_guarded`: when `handle_client` has finished, its client id is in neither registry and
its `WebSocket` is closed, in every run in which no read or write error leaves a read loop while
`state_` is `WS_OPEN`.

`close` is what removes the entry of `websockets_` and calls `on_close`; it does both in the step
that sets `state_` (`Conn.Tidy`).  The read loop ends normally only when it has found the state
closed, but an exception ends it in any state.
-/

namespace WebSocketsLib

open Runs

namespace Conn

variable {app : App} {c c' : Conn}

/-- The connection is cleaned up exactly when it is closed, `on_close` has then been called, and
the read loop has not ended before. -/
structure Tidy (app : App) (c : Conn) : Prop where
  cleaned : c.cleanedUp = true ↔ c.state = .wsClosed
  told : c.state = .wsClosed → app.handlers.onClose = true →
    ∃ code reason, .onClose code reason ∈ c.trace
  ended : c.readLoop = .returned ∨ c.readLoop = .threw → c.state = .wsClosed

/-- The event is an error that leaves the read loop. -/
def raisesOut (c : Conn) : Event → Bool
  | .readError => true
  | .writeFail k => (c.writers[k]?).any fun w => decide (w.owner = .readLoop)
  | _ => false

theorem Tidy.record (h : c.Tidy app) (cb : Callback) :
    Tidy app { c with trace := c.trace ++ [cb] } := by
  refine ⟨h.cleaned, fun hclosed hinstalled => ?_, h.ended⟩
  obtain ⟨code, reason, hmem⟩ := h.told hclosed hinstalled
  exact ⟨code, reason, List.mem_append_left _ hmem⟩

theorem keeps_tidy (app : App) : Keeps app (fun _ => True) (Tidy app) where
  spawn _ h := ⟨h.cleaned, h.told, h.ended⟩
  close {c q} code reason _ h := by
    rcases close_cases app c q code reason with ⟨-, heq⟩ | ⟨-, tasks, heq⟩
    · rwa [heq]
    · rw [heq]
      refine ⟨iff_of_true rfl rfl, fun _ hinstalled => ⟨code, reason, ?_⟩, fun _ => rfl⟩
      rw [if_pos hinstalled]
      exact List.mem_append_right _ (List.mem_singleton_self _)
  onMessage msg _ h := h.record _
  onClose code reason _ h := h.record _
  push _ _ h := ⟨h.cleaned, h.told, h.ended⟩
  enterWriting frame owner rest _ _ h := by
    refine ⟨h.cleaned, h.told, fun hended => ?_⟩
    cases owner with
    | readLoop =>
      rcases hended with hended | hended
      · cases hended
      · cases hended
    | task => exact h.ended hended
  finish {c} owner h := by
    cases owner with
    | task => exact h
    | readLoop =>
      -- the read loop returns only when it has found the state closed
      refine ⟨h.cleaned, h.told, fun hended => ?_⟩
      cases hs : c.state with
      | wsClosed => exact hs
      | wsOpen =>
        have hreading : (c.finish .readLoop).readLoop = .reading := by rw [finish, if_pos hs]
        rw [hreading] at hended
        rcases hended with hended | hended
        · cases hended
        · cases hended

theorem tidy_step {e : Event} (h : c.Tidy app) (hok : c.raisesOut e = true → c.state = .wsClosed)
    (hstep : step app c e = some c') : c'.Tidy app := by
  have hk := keeps_tidy app
  cases stepped_of_step hstep with
  | start hnot => exact hk.start (fun _ => h.record _) fun _ => h
  | call k => exact hk.call k h
  | recv f hreading hopen => exact ⟨h.cleaned, h.told, fun hended => by simp at hended⟩
  | readError hreading => exact ⟨h.cleaned, h.told, fun _ => hok rfl⟩
  | resume f hgot =>
    exact hk.runEffects .readLoop (fun _ _ => trivial) none ⟨h.cleaned, h.told, h.ended⟩
  | runTask t tasks htasks =>
    exact hk.runEffects .task (fun _ _ => trivial) none ⟨h.cleaned, h.told, h.ended⟩
  | writeLast k w hw hq =>
    exact hk.runEffects w.owner (fun _ _ => trivial) _ ⟨h.cleaned, h.told, h.ended⟩
  | writeNext k w buf queue hw hq => exact ⟨h.cleaned, h.told, h.ended⟩
  | writeFail k w hw =>
    -- the exception leaves the read loop only if the read loop awaits the write
    refine ⟨h.cleaned, h.told, fun hended => ?_⟩
    by_cases howner : w.owner = .readLoop
    · exact hok (by simp [raisesOut, hw, howner])
    · exact h.ended (by simpa [howner] using hended)

/-- The `WebSocket` as it is constructed. -/
theorem tidy_empty (app : App) : Tidy app {} := by
  refine ⟨by simp, (by cases ·), fun hended => ?_⟩
  rcases hended with hended | hended
  · cases hended
  · cases hended

end Conn

namespace Phase

/-- The phases before there is a `WebSocket`. -/
def early : Phase → Bool
  | .websocket => false
  | .finished => false
  | _ => true

theorem early_afterRead (cfg : ServerConfig) (req : Request) :
    (Server.afterRead cfg req).early = true := by
  rw [Server.afterRead]
  cases cfg.findWs req.path with
  | none => split_ifs <;> rfl
  | some handlers => split_ifs <;> rfl

end Phase

namespace Server

variable {cfg : ServerConfig} {s s' : Server} {id : ℕ} {sess : Session}

/-! ### Steps of a session -/

/-- What a step of the session `id` does to the server. -/
inductive SessionStepped (id : ℕ) (s : Server) (sess : Session) : SessionEvent → Server → Prop
  | enter (e : SessionEvent) (phase : Phase) (hfrom : sess.phase.early = true)
      (hto : phase.early = true) : SessionStepped id s sess e (s.enter id phase)
  | finish (e : SessionEvent) (hfrom : sess.phase.early = true) :
      SessionStepped id s sess e (s.finish id none)
  | make (e : SessionEvent) (app : App) (hfrom : sess.phase.early = true) :
      SessionStepped id s sess e (s.makeWebSocket id app)
  | ws (e : Conn.Event) (app : App) (c c' : Conn) (hws : sess.ws = some (app, c))
      (hstep : c.step app e = some c') :
      SessionStepped id s sess (.ws e) (s.afterWs id sess.phase app c c')

/-- **Every step of a session** is one of these. -/
theorem stepped_of_sessionStep {e : SessionEvent} (h : sessionStep cfg id s sess e = some s') :
    SessionStepped id s sess e s' := by
  -- only the `WebSocket` takes steps when the phase is not an early one
  have hphase : ∀ p : Phase, sess.phase = p → p.early = true → sess.phase.early = true := by
    rintro p rfl hp
    exact hp
  cases e with
  | ws e =>
    rw [sessionStep] at h
    cases hws : sess.ws with
    | none => simp [hws] at h
    | some p =>
      simp only [hws, Option.map_eq_some_iff] at h
      obtain ⟨c', hstep, rfl⟩ := h
      exact .ws e p.1 p.2 c' hws hstep
  | request req =>
    rw [sessionStep] at h
    split_ifs at h with hp
    obtain rfl := Option.some.inj h
    exact .enter _ _ (hphase _ hp rfl) (Phase.early_afterRead cfg req)
  | handshakeDone =>
    rw [sessionStep] at h
    split_ifs at h with hp
    obtain rfl := Option.some.inj h
    exact .enter _ _ (hphase _ hp rfl) rfl
  | handshakeError =>
    rw [sessionStep] at h
    split_ifs at h with hp
    obtain rfl := Option.some.inj h
    exact .finish _ (hphase _ hp rfl)
  | readError =>
    rw [sessionStep] at h
    split_ifs at h with hp
    obtain rfl := Option.some.inj h
    exact .finish _ (hphase _ hp rfl)
  | handled =>
    rw [sessionStep] at h
    cases hp : sess.phase with
    | handling keepAlive =>
      simp only [hp, Option.some.injEq] at h
      rw [← h]
      exact .enter _ _ (hphase _ hp rfl) rfl
    | _ => simp [hp] at h
  | handlerError =>
    rw [sessionStep] at h
    cases hp : sess.phase with
    | handling keepAlive =>
      simp only [hp, Option.some.injEq] at h
      rw [← h]
      exact .finish _ (hphase _ hp rfl)
    | _ => simp [hp] at h
  | written react =>
    rw [sessionStep] at h
    cases hp : sess.phase with
    | writing keepAlive =>
      cases keepAlive with
      | true =>
        simp only [hp, Option.some.injEq] at h
        rw [← h]
        exact .enter _ _ (hphase _ hp rfl) rfl
      | false =>
        simp only [hp, Option.some.injEq] at h
        rw [← h]
        exact .finish _ (hphase _ hp rfl)
    | refusing =>
      simp only [hp, Option.some.injEq] at h
      rw [← h]
      exact .finish _ (hphase _ hp rfl)
    | upgrading handlers =>
      simp only [hp, Option.some.injEq] at h
      rw [← h]
      exact .make _ _ (hphase _ hp rfl)
    | _ => simp [hp] at h
  | writeError =>
    have hfinish : s' = s.finish id none ∧ sess.phase.early = true := by
      rw [sessionStep] at h
      cases hp : sess.phase with
      | writing keepAlive => exact ⟨by simpa [hp] using h.symm, rfl⟩
      | refusing => exact ⟨by simpa [hp] using h.symm, rfl⟩
      | upgrading handlers => exact ⟨by simpa [hp] using h.symm, rfl⟩
      | _ => simp [hp] at h
    rw [hfinish.1]
    exact .finish _ hfinish.2

/-! ### The registries of one client -/

/-- What the registries hold for a session: `client_cancel_` an entry until the coroutine has
finished, `websockets_` one while its `WebSocket` is open. -/
structure SessionInv (inCancel inWebsockets : Prop) (sess : Session) : Prop where
  cancel : inCancel ↔ sess.phase ≠ .finished
  noSocket : sess.ws = none → ¬ inWebsockets ∧ sess.phase ≠ .websocket
  socket : ∀ app c, sess.ws = some (app, c) → (inWebsockets ↔ c.state = .wsOpen) ∧ c.Tidy app ∧
    (sess.phase = .websocket ∨ sess.phase = .finished ∧ c.state = .wsClosed)

/-- Nothing differs but what concerns the client `id`. -/
def SameElse (id : ℕ) (s s' : Server) : Prop :=
  ∀ j, j ≠ id → (j ∈ s'.clientCancel ↔ j ∈ s.clientCancel) ∧
    (j ∈ s'.websockets ↔ j ∈ s.websockets) ∧ s'.sessions j = s.sessions j

/-- The invariant of the server. -/
structure Inv (s : Server) : Prop where
  known : ∀ id, s.sessions id ≠ none → id ≤ s.clientId
  noSession : ∀ id, s.sessions id = none → id ∉ s.clientCancel ∧ id ∉ s.websockets
  session : ∀ id sess, s.sessions id = some sess →
    SessionInv (id ∈ s.clientCancel) (id ∈ s.websockets) sess

/-- A change that concerns one client only has to be checked there. -/
theorem Inv.replace (h : s.Inv) (hsame : SameElse id s s') (hle : s.clientId ≤ s'.clientId)
    (hid : id ≤ s'.clientId) (hsess : s'.sessions id = some sess)
    (hinv : SessionInv (id ∈ s'.clientCancel) (id ∈ s'.websockets) sess) : s'.Inv := by
  constructor
  · intro j hj
    by_cases hji : j = id
    · rwa [hji]
    · rw [(hsame j hji).2.2] at hj
      exact (h.known j hj).trans hle
  · intro j hj
    by_cases hji : j = id
    · rw [hji, hsess] at hj
      cases hj
    · obtain ⟨hcancel, hws, heq⟩ := hsame j hji
      rw [hcancel, hws]
      exact h.noSession j (heq ▸ hj)
  · intro j sess' hj
    by_cases hji : j = id
    · rw [hji, hsess] at hj
      obtain rfl := Option.some.inj hj
      rwa [hji]
    · obtain ⟨hcancel, hws, heq⟩ := hsame j hji
      rw [hcancel, hws]
      exact h.session j sess' (heq ▸ hj)

@[simp]
theorem setSession_self (id : ℕ) (sess : Session) (s : Server) :
    (s.setSession id sess).sessions id = some sess :=
  Function.update_self ..

@[simp]
theorem setSession_clientCancel (id : ℕ) (sess : Session) (s : Server) :
    (s.setSession id sess).clientCancel = s.clientCancel :=
  rfl

@[simp]
theorem setSession_websockets (id : ℕ) (sess : Session) (s : Server) :
    (s.setSession id sess).websockets = s.websockets :=
  rfl

@[simp]
theorem setSession_clientId (id : ℕ) (sess : Session) (s : Server) :
    (s.setSession id sess).clientId = s.clientId :=
  rfl

@[simp]
theorem finish_self (id : ℕ) (ws : Option (App × Conn)) (s : Server) :
    (s.finish id ws).sessions id = some { phase := .finished, ws } :=
  setSession_self id _ s

@[simp]
theorem finish_clientCancel (id : ℕ) (ws : Option (App × Conn)) (s : Server) :
    (s.finish id ws).clientCancel = s.clientCancel.erase id :=
  rfl

@[simp]
theorem finish_websockets (id : ℕ) (ws : Option (App × Conn)) (s : Server) :
    (s.finish id ws).websockets = s.websockets :=
  rfl

@[simp]
theorem finish_clientId (id : ℕ) (ws : Option (App × Conn)) (s : Server) :
    (s.finish id ws).clientId = s.clientId :=
  rfl

theorem SameElse.refl (id : ℕ) (s : Server) : SameElse id s s :=
  fun _ _ => ⟨Iff.rfl, Iff.rfl, rfl⟩

theorem SameElse.trans {t : Server} (h : SameElse id s t) (h' : SameElse id t s') :
    SameElse id s s' :=
  fun j hj => ⟨(h' j hj).1.trans (h j hj).1, (h' j hj).2.1.trans (h j hj).2.1,
    (h' j hj).2.2.trans (h j hj).2.2⟩

theorem sameElse_setSession (id : ℕ) (sess : Session) (s : Server) :
    SameElse id s (s.setSession id sess) :=
  fun _ hj => ⟨Iff.rfl, Iff.rfl, Function.update_of_ne hj _ _⟩

theorem sameElse_finish (id : ℕ) (ws : Option (App × Conn)) (s : Server) :
    SameElse id s (s.finish id ws) :=
  fun _ hj => ⟨by simp [hj], Iff.rfl, Function.update_of_ne hj _ _⟩

theorem sameElse_addClient (id : ℕ) (s : Server) : SameElse id s (s.addClient id) :=
  fun _ hj => ⟨by simp [addClient, hj], Iff.rfl, rfl⟩

theorem sameElse_registerWebsocket (id : ℕ) (s : Server) :
    SameElse id s (s.registerWebsocket id) :=
  fun _ hj => ⟨Iff.rfl, by simp [registerWebsocket, hj], rfl⟩

theorem sameElse_removeWebsocket (id : ℕ) (s : Server) :
    SameElse id s (s.removeWebsocket id) :=
  fun _ hj => ⟨Iff.rfl, by simp [removeWebsocket, hj], rfl⟩

/-- A session before its `WebSocket` has none, and only the entry of `client_cancel_`. -/
theorem SessionInv.of_early {inCancel inWebsockets : Prop}
    (h : SessionInv inCancel inWebsockets sess) (hearly : sess.phase.early = true) :
    inCancel ∧ ¬ inWebsockets := by
  have hnot : sess.phase ≠ .finished ∧ sess.phase ≠ .websocket := by
    constructor
    · intro hp
      rw [hp] at hearly
      cases hearly
    · intro hp
      rw [hp] at hearly
      cases hearly
  refine ⟨h.cancel.mpr hnot.1, ?_⟩
  cases hws : sess.ws with
  | none => exact (h.noSocket hws).1
  | some p =>
    obtain ⟨-, -, hp | hp⟩ := h.socket p.1 p.2 hws
    · exact absurd hp hnot.2
    · exact absurd hp.1 hnot.1

/-! ### What the steps keep -/

theorem sessionInv_of_early {phase : Phase} (hearly : phase.early = true)
    {inCancel inWebsockets : Prop}
    (hcancel : inCancel) (hws : ¬ inWebsockets) : SessionInv inCancel inWebsockets { phase } := by
  refine ⟨iff_of_true hcancel ?_, fun _ => ⟨hws, ?_⟩, fun _ _ h => by cases h⟩
  · rintro rfl
    cases hearly
  · rintro rfl
    cases hearly

theorem inv_enter (h : s.Inv) (hle : id ≤ s.clientId) {phase : Phase} (hearly : phase.early = true)
    (hcancel : id ∈ s.clientCancel) (hws : id ∉ s.websockets) : (s.enter id phase).Inv := by
  rw [enter]
  exact h.replace (sameElse_setSession id _ s) le_rfl hle (setSession_self id _ s)
    (sessionInv_of_early hearly hcancel hws)

/-- The new `WebSocket` is registered and open. -/
theorem inv_makeWebSocket (h : s.Inv) (hle : id ≤ s.clientId) (app : App)
    (hcancel : id ∈ s.clientCancel) : (s.makeWebSocket id app).Inv := by
  have hsame : SameElse id s (s.makeWebSocket id app) :=
    (sameElse_registerWebsocket id s).trans (sameElse_setSession id _ _)
  refine h.replace hsame le_rfl hle (setSession_self id _ _) ⟨?_, (by cases ·), fun app' c hc => ?_⟩
  · exact iff_of_true hcancel (by simp)
  · cases hc
    exact ⟨iff_of_true (Finset.mem_insert_self ..) rfl, Conn.tidy_empty app, Or.inl rfl⟩

theorem inv_finish (h : s.Inv) (hle : id ≤ s.clientId) (hws : id ∉ s.websockets) :
    (s.finish id none).Inv := by
  refine h.replace (sameElse_finish id none s) le_rfl hle (finish_self id _ s)
    ⟨?_, ?_, fun _ _ h => by cases h⟩
  · simp
  · simpa using hws

/-- The cleanup callback takes the entry of `websockets_` away in the step that closes. -/
theorem websockets_cleanup {app : App} {c c' : Conn}
    (hws : id ∈ s.websockets ↔ c.state = .wsOpen) (hc : c.Tidy app) (hc' : c'.Tidy app)
    (hclosed : c.state = .wsClosed → c'.state = .wsClosed) :
    id ∈ (if c'.cleanedUp && !c.cleanedUp then s.removeWebsocket id else s).websockets
      ↔ c'.state = .wsOpen := by
  have hcleaned := hc.cleaned
  have hcleaned' := hc'.cleaned
  cases hs : c.state with
  | wsClosed =>
    have hs' := hclosed hs
    simp [hcleaned.mpr hs, hcleaned'.mpr hs', hws, hs, hs']
  | wsOpen =>
    have hnot : c.cleanedUp = false := by simpa [hs] using hcleaned
    cases hs' : c'.state with
    | wsClosed => simp [hnot, hcleaned'.mpr hs', removeWebsocket]
    | wsOpen =>
      have hnot' : c'.cleanedUp = false := by simpa [hs'] using hcleaned'
      simp [hnot', hws, hs]

/-- A step of the `WebSocket`: the end of the read loop takes the entry of `client_cancel_`
away. -/
theorem inv_afterWs (h : s.Inv) (hle : id ≤ s.clientId) {phase : Phase} {app : App} {c c' : Conn}
    (hcancel : id ∈ s.clientCancel ↔ phase ≠ .finished)
    (hws : id ∈ s.websockets ↔ c.state = .wsOpen) (hc : c.Tidy app) (hc' : c'.Tidy app)
    (hclosed : c.state = .wsClosed → c'.state = .wsClosed)
    (hphase : phase = .websocket ∨ phase = .finished ∧ c.state = .wsClosed) :
    (s.afterWs id phase app c c').Inv := by
  have hws' := websockets_cleanup hws hc hc' hclosed
  rw [afterWs]
  -- the server after the cleanup callback
  generalize hu : (if c'.cleanedUp && !c.cleanedUp then s.removeWebsocket id else s) = u at hws' ⊢
  obtain ⟨hsame', hcancel', hid⟩ :
      SameElse id s u ∧ u.clientCancel = s.clientCancel ∧ u.clientId = s.clientId := by
    rw [← hu]
    split_ifs
    · exact ⟨sameElse_removeWebsocket id s, rfl, rfl⟩
    · exact ⟨SameElse.refl id s, rfl, rfl⟩
  have hlt : s.clientId ≤ u.clientId := le_of_eq hid.symm
  rw [← hcancel'] at hcancel
  rw [← hid] at hle
  split_ifs with hend
  · -- the read loop has ended, and `Tidy` has it that the connection is closed
    refine h.replace (hsame'.trans (sameElse_finish id _ u)) hlt hle (finish_self id _ u)
      ⟨by simp, (by cases ·), fun app' d hd => ?_⟩
    cases hd
    exact ⟨hws', hc', Or.inr ⟨rfl, hc'.ended hend.2⟩⟩
  · refine h.replace (hsame'.trans (sameElse_setSession id _ u)) hlt hle (setSession_self id _ u)
      ⟨hcancel, (by cases ·), fun app' d hd => ?_⟩
    cases hd
    exact ⟨hws', hc', hphase.imp_right fun hp => ⟨hp.1, hclosed hp.2⟩⟩

/-- A read or write error leaves the read loop of a `WebSocket` only when it is closed. -/
def leavesClosed (s : Server) : Event → Bool
  | .session id (.ws e) =>
    match (s.sessions id).bind Session.ws with
    | some (_, c) => !c.raisesOut e || decide (c.state = .wsClosed)
    | none => true
  | _ => true

theorem inv_sessionStep {e : SessionEvent} (h : s.Inv) (hid : s.sessions id = some sess)
    (hok : s.leavesClosed (.session id e) = true)
    (hstep : sessionStep cfg id s sess e = some s') : s'.Inv := by
  have hle : id ≤ s.clientId := h.known id (by rw [hid]; exact Option.some_ne_none _)
  have hinv := h.session id sess hid
  cases stepped_of_sessionStep hstep with
  | enter e phase hfrom hto =>
    obtain ⟨hcancel, hws⟩ := hinv.of_early hfrom
    exact inv_enter h hle hto hcancel hws
  | finish e hfrom => exact inv_finish h hle (hinv.of_early hfrom).2
  | make e app hfrom => exact inv_makeWebSocket h hle app (hinv.of_early hfrom).1
  | ws e app c c' hws hws' =>
    obtain ⟨hmem, htidy, hphase⟩ := hinv.socket app c hws
    have hraise : c.raisesOut e = true → c.state = .wsClosed := by
      intro hr
      simpa [leavesClosed, hid, hws, hr] using hok
    exact inv_afterWs h hle hinv.cancel hmem htidy
      (Conn.tidy_step htidy hraise hws') (fun hs => (Conn.shutdown_step hs hws').1) hphase

theorem inv_step {e : Event} (h : s.Inv) (hok : s.leavesClosed e = true)
    (hstep : step cfg s e = some s') : s'.Inv := by
  cases e with
  | session id e =>
    rw [step] at hstep
    obtain ⟨sess, hid, hsess⟩ := Option.bind_eq_some_iff.mp hstep
    exact inv_sessionStep h hid hok hsess
  | accept =>
    obtain rfl := Option.some.inj hstep
    -- no session has the next id, since the counter bounds them all
    have hnew : s.sessions (s.clientId + 1) = none := by
      by_contra hsome
      have hle := h.known _ hsome
      omega
    refine h.replace ((sameElse_addClient _ s).trans (sameElse_setSession _ _ _))
      (Nat.le_succ s.clientId) le_rfl (setSession_self ..) (sessionInv_of_early ?_ ?_ ?_)
    · split_ifs
      · rfl
      · rfl
    · exact Finset.mem_insert_self ..
    · exact (h.noSession _ hnew).2

theorem inv_empty : Inv {} :=
  ⟨fun _ h => absurd rfl h, fun _ _ => ⟨Finset.notMem_empty _, Finset.notMem_empty _⟩,
    fun _ _ h => by cases h⟩

end Server

/-- What is left of a session whose coroutine has finished: its client id in neither registry, and
its `WebSocket`, if there was one, closed with `on_close` called. -/
def Server.Released (s : Server) : Prop :=
  ∀ id sess, s.sessions id = some sess → sess.phase = .finished →
    id ∉ s.clientCancel ∧ id ∉ s.websockets ∧
    ∀ app c, sess.ws = some (app, c) → c.state = .wsClosed ∧
      (app.handlers.onClose = true → ∃ code reason, .onClose code reason ∈ c.trace)

/-- **No connection outlives its session** in the registries, in every run in which no read or
write error leaves the read loop of an open `WebSocket`. -/
theorem released_of_guarded (cfg : ServerConfig) (es : List Server.Event) {s : Server}
    (hok : Guarded (Server.step cfg) (fun s e => s.leavesClosed e = true) {} es)
    (hrun : run (Server.step cfg) {} es = some s) : s.Released := by
  have hinv : s.Inv := guarded_invariant Server.inv_step Server.inv_empty hok hrun
  intro id sess hid hfinished
  have hsess := hinv.session id sess hid
  have hcancel : id ∉ s.clientCancel := fun hmem => hsess.cancel.mp hmem hfinished
  cases hws : sess.ws with
  | none => exact ⟨hcancel, (hsess.noSocket hws).1, fun _ _ h => by cases h⟩
  | some p =>
    obtain ⟨hmem, htidy, hphase⟩ := hsess.socket p.1 p.2 hws
    have hclosed : p.2.state = .wsClosed := by
      rcases hphase with hp | hp
      · rw [hfinished] at hp
        cases hp
      · exact hp.2
    refine ⟨hcancel, fun h => ?_, ?_⟩
    · have hopen := hmem.mp h
      rw [hclosed] at hopen
      cases hopen
    · rintro app c ⟨rfl⟩
      exact ⟨hclosed, htidy.told hclosed⟩

/-! ### A clean and an abrupt end -/

/-- A server with one route for WebSockets, which has a close handler. -/
def chatServer : ServerConfig where
  useSsl := false
  findWs path := if path = bytes "/chat" then some { onClose := true } else none

/-- A client upgrades to the route. -/
def upgraded : List Server.Event :=
  [.accept,
    .session 1 (.request (parseHttpRequest (bytes
      "GET /chat HTTP/1.1\r\nUpgrade: websocket\r\nConnection: Upgrade\r\nSec-WebSocket-Key: a\r\n\r\n"))),
    .session 1 (.written fun _ => []), .session 1 (.ws .start)]

/-- The client sends a Close frame. -/
def peerCloses : List Server.Event :=
  upgraded ++ [.session 1 (.ws (.recv { fin := true, opcode := wsClose })),
    .session 1 (.ws .resume), .session 1 (.ws (.writeDone 0))]

theorem released_of_guarded_peerCloses :
    ∃ s sess, run (Server.step chatServer) {} peerCloses = some s ∧ s.sessions 1 = some sess ∧
      sess.phase = .finished ∧ s.Released :=
  ⟨_, _, rfl, rfl, rfl, released_of_guarded chatServer peerCloses (by decide) rfl⟩

/-- The client disconnects without a Close frame. -/
def disconnect : List Server.Event :=
  upgraded ++ [.session 1 (.ws .readError)]

/-- The end of the stream leaves the entry of `websockets_`. -/
theorem not_released_disconnect :
    ¬ ∀ (cfg : ServerConfig) (es : List Server.Event) (s : Server),
      run (Server.step cfg) {} es = some s → s.Released := by
  intro h
  obtain ⟨-, hws, -⟩ := h chatServer disconnect _ rfl 1 _ rfl rfl
  exact hws (by decide)

end WebSocketsLib
