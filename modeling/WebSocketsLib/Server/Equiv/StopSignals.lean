import WebSocketsLib.Server.Equiv.ClientCancel
import WebSocketsLib.Server.Equiv.Stop

/-!
# The signals that `stop` uses

`Server/Stop.lean` takes each `emit_client` as one step, and leaves it to the id of a client which
slot its signal has.  `signals_of_run`: every run there is one of `Server/ClientCancel.lean`, with
an `emit` behind each lookup that finds something; all its `emit`s are on registered signals, and
the slot of each session is that of the entry for its id.
-/

namespace WebSocketsLib

namespace Stop

open Runs

/-! ### The steps of a session -/

/-- How far `handle_client` is with `client_cancel_`. -/
def Point.cancelPoint : Point → ClientCancel.Point
  | .spawned => .spawned
  | .finished => .finished
  | _ => .running

variable {cfg : ServerConfig} {sess : Session} {o : Outcome}

theorem cancelPoint_of_ne {p : Point} (hspawned : p ≠ .spawned) (hfinished : p ≠ .finished) :
    p.cancelPoint = .running := by
  cases p with
  | spawned => exact absurd rfl hspawned
  | finished => exact absurd rfl hfinished
  | _ => rfl

/-- What a step of a session does to its entry of `client_cancel_`. -/
inductive CancelSpec (sess : Session) (o : Outcome) : Prop
  | enter (hfrom : sess.point = .spawned) (hto : o.session.point.cancelPoint = .running)
      (hcalls : o.calls = [.addClient])
  | stay (hsame : o.session.point.cancelPoint = sess.point.cancelPoint)
      (hadd : .addClient ∉ o.calls) (hremove : .removeClient ∉ o.calls)
  | leave (hfrom : sess.point.cancelPoint = .running) (hto : o.session.point = .finished)
      (hadd : .addClient ∉ o.calls) (hremove : .removeClient ∈ o.calls)

/-- A step that leaves the registries alone, within the session. -/
theorem cancelSpec_of_nil (hcalls : o.calls = []) (hfrom : sess.point.cancelPoint = .running)
    (hto : o.session.point.cancelPoint = .running) : CancelSpec sess o := by
  apply CancelSpec.stay
  · rw [hfrom, hto]
  · rw [hcalls]
    exact List.not_mem_nil
  · rw [hcalls]
    exact List.not_mem_nil

theorem cancelSpec_finish (hfrom : sess.point.cancelPoint = .running) :
    CancelSpec sess (Session.finish none) :=
  .leave hfrom rfl (by simp [Session.finish]) (by simp [Session.finish])

/-- A step of a `WebSocket`, of a session that is then at `base`. -/
theorem cancelSpec_afterWs {base : Session} (app : App) (c c' : Conn)
    (hsame : base.point.cancelPoint = sess.point.cancelPoint) :
    CancelSpec sess (base.afterWs app c c') := by
  have hadd : .addClient ∉ (base.afterWs app c c').calls := by
    unfold Session.afterWs
    dsimp only
    split_ifs <;> simp
  by_cases hended : base.point = .started false ∧
      (c'.readLoop = .returned ∨ c'.readLoop = .threw)
  · apply CancelSpec.leave
    · rw [← hsame, hended.1]
      rfl
    · simp [Session.afterWs, hended]
    · exact hadd
    · simp [Session.afterWs, hended]
  · refine .stay ?_ hadd ?_
    · rw [← hsame]
      simp [Session.afterWs, hended]
    · simp only [Session.afterWs, hended, if_false, List.append_nil]
      split_ifs <;> simp

/-- **Every step of a session** meets the spec. -/
theorem cancelSpec_of_stepped (hstep : Stepped sess o) : CancelSpec sess o := by
  cases hstep with
  | begin hpoint hnone => exact .enter hpoint rfl rfl
  | goOn p reads hfrom hnot hto =>
    obtain ⟨hspawned, hfinished⟩ := ne_ends rfl rfl hfrom
    obtain ⟨hspawned', hfinished'⟩ := ne_ends rfl rfl hto
    exact cancelSpec_of_nil rfl (cancelPoint_of_ne hspawned hfinished)
      (cancelPoint_of_ne hspawned' hfinished')
  | write op keepAlive hresult hfrom =>
    have hpoint : sess.point.cancelPoint = .running := by
      rcases hfrom with heq | ⟨last, heq⟩
      · rw [heq]
        rfl
      · rw [heq]
        rfl
    cases op with
    | some op => exact cancelSpec_of_nil rfl hpoint rfl
    | none =>
      cases keepAlive with
      | true => exact cancelSpec_of_nil rfl hpoint rfl
      | false => exact cancelSpec_finish hpoint
  | ends ok hawaits hnone =>
    obtain ⟨hspawned, hfinished⟩ := ne_ends rfl rfl hawaits
    have hpoint := cancelPoint_of_ne hspawned hfinished
    exact cancelSpec_of_nil rfl hpoint hpoint
  | finish hawaits =>
    obtain ⟨hspawned, hfinished⟩ := ne_ends rfl rfl hawaits
    exact cancelSpec_finish (cancelPoint_of_ne hspawned hfinished)
  | upgrade app hpoint hresult =>
    obtain ⟨hspawned, hfinished⟩ := ne_ends rfl rfl hpoint
    exact .stay (cancelPoint_of_ne hspawned hfinished).symm (by simp) (by simp)
  | assign hpoint => exact cancelSpec_of_nil rfl (by rw [hpoint]; rfl) rfl
  | start app c hpoint hws => exact cancelSpec_afterWs app c _ (by rw [hpoint]; rfl)
  | partRead app c hpoint hws hopen => exact cancelSpec_of_nil rfl (by rw [hpoint]; rfl) rfl
  | nextRead hpoint => exact cancelSpec_of_nil rfl (by rw [hpoint]; rfl) rfl
  | ws e app c c' hws hadmits hstep => exact cancelSpec_afterWs app c c' rfl

/-! ### The registry -/

variable {s s' : State} {t : ClientCancel.State} {id : ℕ}

theorem clientId_foldl (id : ℕ) (calls : List RegistryCall) (s : State) :
    (calls.foldl (State.call id) s).clientId = s.clientId := by
  induction calls generalizing s with
  | nil => rfl
  | cons k ks ih =>
    rw [List.foldl_cons, ih]
    cases k <;> rfl

/-- The clients that stay. -/
theorem mem_clientCancel_foldl {calls : List RegistryCall} (hadd : .addClient ∉ calls)
    (s : State) (j : ℕ) : j ∈ (calls.foldl (State.call id) s).clientCancel ↔
      j ∈ s.clientCancel ∧ (j = id → .removeClient ∉ calls) := by
  induction calls generalizing s with
  | nil => simp
  | cons k ks ih =>
    rw [List.mem_cons, not_or] at hadd
    rw [List.foldl_cons, ih hadd.2]
    cases k with
    | addClient => exact absurd rfl hadd.1
    | removeClient =>
      rw [State.call, Finset.mem_erase]
      simp only [List.mem_cons, true_or, not_true_eq_false, imp_false]
      tauto
    | registerWebsocket => simp [State.call]
    | removeWebsocket => simp [State.call]

/-! ### Sections in a row -/

/-- Nothing is removed that has been found, and the sessions have different ids. -/
def Serial (t : ClientCancel.State) (e : ClientCancel.Event) : Prop :=
  ClientCancel.RemovesUnheld t e ∧ ClientCancel.SpawnsNew t e

variable {slot : Option ℕ}

/-- `handle_client` begins: `add_client` and `get_client_slot`. -/
theorem leads_enter (ht : t.sessions id = some ⟨id, .spawned, slot⟩) :
    ∃ t' slot', Leads ClientCancel.step Serial t t' ∧
      t'.sessions = Function.update t.sessions id (some ⟨id, .running, slot'⟩) ∧
      t'.emitters = t.emitters ∧
      ∀ j, j ∈ t'.clientCancel ↔ j = id ∨ j ∈ t.clientCancel := by
  let t₁ := (t.addClient id).setSession id ⟨id, .added, slot⟩
  have hadd : ClientCancel.step t (.addClient id) = some t₁ :=
    ClientCancel.step_of_stepped (.addClient id _ ht rfl)
  have ht₁ : t₁.sessions id = some ⟨id, .added, slot⟩ := Function.update_self id _ _
  have hget : ClientCancel.step t₁ (.getClientSlot id)
      = some (t₁.setSession id ⟨id, .running, t₁.getClientSlot id⟩) :=
    ClientCancel.step_of_stepped (.getClientSlot id _ ht₁ rfl)
  refine ⟨_, t₁.getClientSlot id, (Leads.single hadd ⟨trivial, trivial⟩).trans
    (Leads.single hget ⟨trivial, trivial⟩), ?_, ?_, ?_⟩
  · rw [← ClientCancel.addClient_sessions id t]
    exact Function.update_idem _ _ _
  · exact ClientCancel.addClient_emitters id t
  · intro j
    exact ClientCancel.mem_addClient id j t

/-- `handle_client` ends: `remove_client`. -/
theorem leads_leave (hunheld : ∀ i j, ¬ (t.emitters i).Holds j)
    (ht : t.sessions id = some ⟨id, .running, slot⟩) :
    ∃ t', Leads ClientCancel.step Serial t t' ∧
      t'.sessions = Function.update t.sessions id (some ⟨id, .finished, slot⟩) ∧
      t'.emitters = t.emitters ∧
      ∀ j, j ∈ t'.clientCancel ↔ j ≠ id ∧ j ∈ t.clientCancel := by
  have hremove : ClientCancel.step t (.removeClient id) = some _ :=
    ClientCancel.step_of_stepped (.removeClient id _ ht rfl)
  refine ⟨_, Leads.single hremove ⟨fun sess' _ i => hunheld i _, trivial⟩, rfl, rfl, ?_⟩
  intro j
  exact Finmap.mem_erase

/-- `emit_client` is a lookup, with an `emit` behind it if it has found something. -/
theorem leads_emitClient {i : ℕ} {ids : Finset ℕ} (hcalling : t.emitters i = .calling ids)
    (hid : id ∈ ids) :
    Leads ClientCancel.step Serial t (t.setEmitter i (.calling (ids.erase id))) := by
  have hlookUp := ClientCancel.step_of_stepped (.lookUp i id ids hcalling hid)
  rw [ClientCancel.State.lookUp] at hlookUp
  cases hlookup : t.clientCancel.lookup id with
  | none =>
    rw [hlookup] at hlookUp
    exact Leads.single hlookUp ⟨trivial, trivial⟩
  | some entry =>
    rw [hlookup] at hlookUp
    let t₁ := t.setEmitter i (.found id entry (ids.erase id))
    have ht₁ : t₁.emitters i = .found id entry (ids.erase id) := by
      show Function.update t.emitters i (.found id entry (ids.erase id)) i = _
      rw [Function.update_self]
    have hemit := ClientCancel.step_of_stepped (.emit i id entry (ids.erase id) ht₁)
    have hsame : t₁.setEmitter i (.calling (ids.erase id))
        = t.setEmitter i (.calling (ids.erase id)) := by
      rw [ClientCancel.State.setEmitter, ClientCancel.State.setEmitter]
      congr 1
      exact Function.update_idem _ _ _
    rw [hsame] at hemit
    exact (Leads.single hlookUp ⟨trivial, trivial⟩).trans (Leads.single hemit ⟨trivial, trivial⟩)

/-! ### The same state -/

/-- The ids that `emit_all` has left. -/
def StopPoint.ids : StopPoint → Finset ℕ
  | .emitting ids => ids
  | _ => ∅

/-- The same clients are registered, the sessions are as far, and the thread `0` is in `stop`. -/
structure Matches (s : State) (t : ClientCancel.State) : Prop where
  clientCancel : ∀ id, id ∈ t.clientCancel ↔ id ∈ s.clientCancel
  sessions : ∀ id, (t.sessions id).map (fun sess => (sess.clientId, sess.point))
    = ((s.sessions id).map Session.point).map fun p => (id, p.cancelPoint)
  free : ∀ id, s.clientId < id → t.sessions id = none
  emitters : t.emitters = Function.update (fun _ => .calling ∅) 0 (.calling s.stop.ids)

theorem matches_init : Matches {} {} where
  clientCancel id := iff_of_false Finmap.notMem_empty (Finset.notMem_empty id)
  sessions _ := rfl
  free _ _ := rfl
  emitters := (Function.update_eq_self 0 fun _ => ClientCancel.Emitter.calling ∅).symm

theorem map_point_emitClient (s : State) (id j : ℕ) :
    ((s.emitClient id).sessions j).map Session.point = (s.sessions j).map Session.point := by
  unfold State.emitClient
  split_ifs
  · cases hsess : s.sessions id with
    | none => rfl
    | some sess =>
      show (Function.update s.sessions id _ j).map Session.point = _
      by_cases hj : j = id
      · rw [hj, Function.update_self, hsess]
        exact congrArg some (point_emitted sess)
      · rw [Function.update_of_ne hj]
  · rfl

theorem map_point_closeWebsockets (s : State) (j : ℕ) :
    (s.closeWebsockets.sessions j).map Session.point = (s.sessions j).map Session.point := by
  show (if j ∈ s.websockets then (s.sessions j).map State.closeWebsocket
    else s.sessions j).map Session.point = _
  split_ifs
  · exact Option.map_map _ _ _
  · rfl

namespace Matches

theorem session (h : Matches s t) (hsess : s.sessions id = some sess) :
    ∃ slot, t.sessions id = some ⟨id, sess.point.cancelPoint, slot⟩ := by
  have hmap := h.sessions id
  rw [hsess] at hmap
  obtain ⟨⟨clientId, point, slot⟩, hsess', heq⟩ := Option.map_eq_some_iff.mp hmap
  obtain ⟨rfl, rfl⟩ := Prod.mk.inj heq
  exact ⟨slot, hsess'⟩

/-- The session `k` has the id `k`. -/
theorem clientId_eq (h : Matches s t) {k : ℕ} {sess' : ClientCancel.Session}
    (hsess : t.sessions k = some sess') : sess'.clientId = k ∧ k ≤ s.clientId := by
  constructor
  · have hmap := h.sessions k
    rw [hsess] at hmap
    obtain ⟨p, -, heq⟩ := Option.map_eq_some_iff.mp hmap.symm
    exact (Prod.mk.inj heq).1.symm
  · by_contra hno
    rw [h.free k (Nat.lt_of_not_le hno)] at hsess
    cases hsess

/-- No thread is between a lookup and its `emit`. -/
theorem unheld (h : Matches s t) (i j : ℕ) : ¬ (t.emitters i).Holds j := by
  rw [h.emitters]
  by_cases hi : i = 0
  · rw [hi, Function.update_self]
    exact id
  · rw [Function.update_of_ne hi]
    exact id

theorem emitters_zero (h : Matches s t) : t.emitters 0 = .calling s.stop.ids := by
  rw [h.emitters, Function.update_self]

/-- `stop` goes on. -/
theorem emitters_update (h : Matches s t) (em : ClientCancel.Emitter) :
    Function.update t.emitters 0 em = Function.update (fun _ => .calling ∅) 0 em := by
  rw [h.emitters, Function.update_idem]

/-- One session goes on, or begins. -/
theorem update (h : Matches s t) {t' : ClientCancel.State} (slot : Option ℕ)
    (hsessions : s'.sessions = Function.update s.sessions id (some sess))
    (hclientId : s.clientId ≤ s'.clientId) (hid : id ≤ s'.clientId) (hstop : s'.stop = s.stop)
    (hsessions' : t'.sessions
      = Function.update t.sessions id (some ⟨id, sess.point.cancelPoint, slot⟩))
    (hemitters : t'.emitters = t.emitters)
    (hcancel : ∀ j, j ∈ t'.clientCancel ↔ j ∈ s'.clientCancel) : Matches s' t' := by
  refine ⟨hcancel, ?_, ?_, ?_⟩
  · intro j
    rw [hsessions, hsessions']
    by_cases hj : j = id
    · rw [hj, Function.update_self, Function.update_self]
      rfl
    · rw [Function.update_of_ne hj, Function.update_of_ne hj]
      exact h.sessions j
  · intro j hj
    rw [hsessions', Function.update_of_ne (by omega)]
    exact h.free j (by omega)
  · rw [hemitters, hstop]
    exact h.emitters

/-- **A step of a session.** -/
theorem apply (h : Matches s t) (hsess : s.sessions id = some sess) (hstep : Stepped sess o) :
    ∃ t', Leads ClientCancel.step Serial t t' ∧ Matches (s.apply id o) t' := by
  obtain ⟨slot, ht⟩ := h.session hsess
  have hcalled := State.called_foldl id o.calls s
  have hclientId : (s.apply id o).clientId = s.clientId := clientId_foldl id o.calls s
  have hsessions : (s.apply id o).sessions = Function.update s.sessions id (some o.session) := by
    rw [← hcalled.sessions]
    rfl
  have hupdate : ∀ {t' : ClientCancel.State} (slot' : Option ℕ), t'.sessions
      = Function.update t.sessions id (some ⟨id, o.session.point.cancelPoint, slot'⟩) →
        t'.emitters = t.emitters →
          (∀ j, j ∈ t'.clientCancel ↔ j ∈ (s.apply id o).clientCancel) →
            Matches (s.apply id o) t' := fun slot' =>
    h.update slot' hsessions hclientId.ge (hclientId.ge.trans' (h.clientId_eq ht).2) hcalled.stop
  cases cancelSpec_of_stepped hstep with
  | enter hfrom hto hcalls =>
    rw [hfrom] at ht
    obtain ⟨t', slot', hlead, hsessions', hemitters, hmem⟩ := leads_enter ht
    refine ⟨t', hlead, hupdate slot' (by rw [hto, hsessions']) hemitters fun j => ?_⟩
    rw [hmem, h.clientCancel, State.apply, hcalls]
    exact Finset.mem_insert.symm
  | stay hsame hadd hremove =>
    refine ⟨t, Leads.refl t, hupdate slot ?_ rfl fun j => ?_⟩
    · rw [hsame, ← ht, Function.update_eq_self]
    · rw [h.clientCancel]
      exact ((mem_clientCancel_foldl hadd s j).trans (and_iff_left fun _ => hremove)).symm
  | leave hfrom hto hadd hremove =>
    rw [hfrom] at ht
    obtain ⟨t', hlead, hsessions', hemitters, hmem⟩ := leads_leave h.unheld ht
    refine ⟨t', hlead, hupdate slot (by rw [hto, hsessions']; rfl) hemitters fun j => ?_⟩
    rw [hmem, h.clientCancel]
    refine Iff.trans ?_ (mem_clientCancel_foldl hadd s j).symm
    rw [and_comm, imp_not_comm, imp_iff_right hremove]

/-- **One `emit_client`.** -/
theorem emitClient (h : Matches s t) (id : ℕ) (ids : Finset ℕ) :
    Matches { s.emitClient id with stop := .emitting (ids.erase id) }
      (t.setEmitter 0 (.calling (ids.erase id))) := by
  obtain ⟨sessions, heq⟩ := emitClient_eq s id
  have hpoints : ∀ j, (sessions j).map Session.point = (s.sessions j).map Session.point := by
    intro j
    have hj := map_point_emitClient s id j
    rwa [heq] at hj
  rw [heq]
  refine ⟨h.clientCancel, fun j => ?_, h.free, h.emitters_update _⟩
  rw [hpoints]
  exact h.sessions j

/-- `do_accept` spawns a session. -/
theorem spawn (h : Matches s t) (acceptor : Acceptor) : ∃ t',
    Leads ClientCancel.step Serial t t' ∧
      Matches ({ s with acceptor, clientId := s.clientId + 1 }.setSession (s.clientId + 1)
        { point := .spawned }) t' := by
  have hnone : t.sessions (s.clientId + 1) = none := h.free _ (Nat.lt_succ_self _)
  have hspawn := ClientCancel.step_of_stepped (.spawn (s.clientId + 1) (s.clientId + 1) hnone)
  refine ⟨_, Leads.single hspawn ⟨trivial, ?_⟩, h.update none rfl (Nat.le_succ _) le_rfl rfl rfl rfl
    h.clientCancel⟩
  intro k sess hsess _ hid
  obtain ⟨hk, hle⟩ := h.clientId_eq hsess
  omega

/-- `emit_all` copies the ids. -/
theorem copyIds (h : Matches s t) (hstop : s.stop = .acceptStopped) : ∃ t',
    Leads ClientCancel.step Serial t t' ∧
      Matches { s with stop := .emitting s.clientCancel } t' := by
  have hidle : t.emitters 0 = .calling ∅ := by
    rw [h.emitters_zero, hstop]
    rfl
  have hkeys : t.clientCancel.keys = s.clientCancel := by
    ext id
    rw [Finmap.mem_keys, h.clientCancel]
  have hcopy := ClientCancel.step_of_stepped (.copyIds 0 hidle)
  refine ⟨_, Leads.single hcopy ⟨trivial, trivial⟩, h.clientCancel, h.sessions, h.free,
    (h.emitters_update _).trans ?_⟩
  rw [hkeys]
  rfl

/-- **Every step** of the server is a run of the sections and `emit`s. -/
theorem step (h : Matches s t) {e : Event} (hstep : Stop.step cfg s e = some s') :
    ∃ t', Leads ClientCancel.step Serial t t' ∧ Matches s' t' := by
  cases e with
  | accept =>
    rw [Stop.step] at hstep
    split_ifs at hstep
    obtain rfl := Option.some.inj hstep
    exact ⟨t, Leads.refl t, h.clientCancel, h.sessions, h.free, h.emitters⟩
  | acceptorResumes =>
    rw [Stop.step] at hstep
    split at hstep
    · obtain rfl := Option.some.inj hstep
      exact h.spawn .accepting
    · obtain rfl := Option.some.inj hstep
      exact ⟨t, Leads.refl t, h.clientCancel, h.sessions, h.free, h.emitters⟩
    · cases hstep
  | session id e =>
    obtain ⟨sess, hsess, hstep⟩ := Option.bind_eq_some_iff.mp hstep
    obtain ⟨o, ho, rfl⟩ := Option.map_eq_some_iff.mp hstep
    exact h.apply hsess (stepped_of_sessionStep ho)
  | emitServer =>
    rw [Stop.step] at hstep
    by_cases hstop : s.stop = .notCalled
    · rw [if_pos hstop] at hstep
      obtain rfl := Option.some.inj hstep
      refine ⟨t, Leads.refl t, h.clientCancel, h.sessions, h.free, h.emitters.trans ?_⟩
      rw [hstop]
      rfl
    · rw [if_neg hstop] at hstep
      cases hstep
  | copyIds =>
    rw [Stop.step] at hstep
    split_ifs at hstep with hstop
    obtain rfl := Option.some.inj hstep
    exact h.copyIds hstop
  | emitClient id =>
    rw [Stop.step] at hstep
    split at hstep
    · rename_i ids hids
      split_ifs at hstep with hid
      obtain rfl := Option.some.inj hstep
      have hcalling : t.emitters 0 = .calling ids := by
        rw [h.emitters_zero, hids]
        rfl
      exact ⟨_, leads_emitClient hcalling hid, h.emitClient id ids⟩
    · cases hstep
  | closeWebsockets =>
    rw [Stop.step] at hstep
    split_ifs at hstep with hstop
    obtain rfl := Option.some.inj hstep
    refine ⟨t, Leads.refl t, h.clientCancel, fun j => ?_, h.free, h.emitters.trans ?_⟩
    · refine (h.sessions j).trans (congrArg _ ?_)
      exact (map_point_closeWebsockets s j).symm
    · rw [hstop]
      rfl

end Matches

/-! ### Every run -/

/-- **The signals that `stop` uses**: a run of the server is one of the locked sections and `emit`s
in which each `emit` is on a registered signal, and in which the slot of a session that has not
finished is that of the entry for its id. -/
theorem signals_of_run (cfg : ServerConfig) {es : List Event} {s : State}
    (hrun : Runs.run (Stop.step cfg) {} es = some s) : ∃ t, Matches s t ∧
      Leads ClientCancel.step ClientCancel.EmitsRegistered {} t ∧
      ∀ id sess, s.sessions id = some sess → sess.point ≠ .spawned → sess.point ≠ .finished →
        ∃ entry, t.clientCancel.lookup id = some entry ∧
          t.sessions id = some ⟨id, .running, some entry⟩ := by
  obtain ⟨t, ⟨es', hrun', hguard⟩, hmatches⟩ :=
    leads_of_simulates (fun h hstep => h.step hstep) matches_init hrun
  refine ⟨t, hmatches, ⟨es', hrun', ?_⟩, ?_⟩
  · apply ClientCancel.guarded_emitsRegistered ClientCancel.allRegistered_init
    exact hguard.mono fun _ _ => And.left
  · intro id sess hsess hspawned hfinished
    obtain ⟨slot, ht⟩ := hmatches.session hsess
    rw [cancelPoint_of_ne hspawned hfinished] at ht
    obtain ⟨entry, rfl, hlookup⟩ := ClientCancel.slot_registered hrun'
      (hguard.mono fun _ _ => And.right) ht rfl
    exact ⟨entry, hlookup, ht⟩

theorem signals_of_run_whileReading : ∃ s t,
    Runs.run (Stop.step plainServer) {} stopWhileReading = some s ∧ Matches s t ∧
      Leads ClientCancel.step ClientCancel.EmitsRegistered {} t := by
  obtain ⟨t, hmatches, hlead, -⟩ := @signals_of_run plainServer stopWhileReading _ rfl
  exact ⟨_, t, rfl, hmatches, hlead⟩

end Stop

end WebSocketsLib
