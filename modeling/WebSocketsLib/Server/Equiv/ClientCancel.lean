import WebSocketsLib.Lib.Runs
import WebSocketsLib.Server.ClientCancel

/-!
# When a cancellation signal is used

`emitsRegistered_of_guarded`: every `emit` is on the signal of an entry that `client_cancel_` still
has, in the runs in which no `remove_client` comes between the two steps of an `emit_client` of the
same id; there are no other such runs among those that no `emit_client` is in the middle of at the
end.

An entry is inserted once only (`Allocated`), so that a signal whose entry has been removed is never
registered again: the proof of the second part goes from the end of the run to its beginning.

`slot_registered`: the sessions use their slots only while their entries are there.
-/

namespace WebSocketsLib

namespace ClientCancel

open Runs

/-! ### What a step does -/

variable {s s' : State} {e : Event} {k t id clientId entry : ℕ} {ids : Finset ℕ}

/-- The steps, with their conditions. -/
inductive Stepped (s : State) : Event → State → Prop
  | spawn (k clientId : ℕ) (hnone : s.sessions k = none) :
      Stepped s (.spawn k clientId) (s.setSession k { clientId })
  | addClient (k : ℕ) (sess : Session) (hsess : s.sessions k = some sess)
      (hpoint : sess.point = .spawned) :
      Stepped s (.addClient k)
        ((s.addClient sess.clientId).setSession k { sess with point := .added })
  | getClientSlot (k : ℕ) (sess : Session) (hsess : s.sessions k = some sess)
      (hpoint : sess.point = .added) :
      Stepped s (.getClientSlot k)
        (s.setSession k { sess with point := .running, slot := s.getClientSlot sess.clientId })
  | removeClient (k : ℕ) (sess : Session) (hsess : s.sessions k = some sess)
      (hpoint : sess.point = .running) :
      Stepped s (.removeClient k)
        ((s.removeClient sess.clientId).setSession k { sess with point := .finished })
  | emitClient (t id : ℕ) (hidle : s.emitters t = .calling ∅) :
      Stepped s (.emitClient t id) (s.setEmitter t (.calling {id}))
  | copyIds (t : ℕ) (hidle : s.emitters t = .calling ∅) :
      Stepped s (.copyIds t) (s.setEmitter t (.calling s.clientCancel.keys))
  | lookUp (t id : ℕ) (ids : Finset ℕ) (hcalling : s.emitters t = .calling ids) (hid : id ∈ ids) :
      Stepped s (.lookUp t id) (s.lookUp t id (ids.erase id))
  | emit (t id entry : ℕ) (ids : Finset ℕ) (hfound : s.emitters t = .found id entry ids) :
      Stepped s (.emit t) (s.setEmitter t (.calling ids))

/-- A step of a session that is at a certain point. -/
theorem stepped_of_session {point : Point} {f : Session → State}
    (h : ((s.sessions k).bind fun sess => if sess.point = point then some (f sess) else none)
      = some s') :
    ∃ sess, s.sessions k = some sess ∧ sess.point = point ∧ f sess = s' := by
  obtain ⟨sess, hsess, h⟩ := Option.bind_eq_some_iff.mp h
  exact ⟨sess, hsess, Option.ite_some_none_eq_some.mp h⟩

/-- **Every step** is one of these. -/
theorem stepped_of_step (h : step s e = some s') : Stepped s e s' := by
  cases e with
  | spawn k clientId =>
    obtain ⟨hnone, rfl⟩ := Option.ite_some_none_eq_some.mp h
    exact .spawn k clientId hnone
  | addClient k =>
    obtain ⟨sess, hsess, hpoint, rfl⟩ := stepped_of_session h
    exact .addClient k sess hsess hpoint
  | getClientSlot k =>
    obtain ⟨sess, hsess, hpoint, rfl⟩ := stepped_of_session h
    exact .getClientSlot k sess hsess hpoint
  | removeClient k =>
    obtain ⟨sess, hsess, hpoint, rfl⟩ := stepped_of_session h
    exact .removeClient k sess hsess hpoint
  | emitClient t id =>
    obtain ⟨hidle, rfl⟩ := Option.ite_some_none_eq_some.mp h
    exact .emitClient t id hidle
  | copyIds t =>
    obtain ⟨hidle, rfl⟩ := Option.ite_some_none_eq_some.mp h
    exact .copyIds t hidle
  | lookUp t id =>
    rw [step] at h
    cases hem : s.emitters t with
    | calling ids =>
      rw [hem] at h
      obtain ⟨hid, rfl⟩ := Option.ite_some_none_eq_some.mp h
      exact .lookUp t id ids hem hid
    | found id' entry ids =>
      rw [hem] at h
      cases h
  | emit t =>
    rw [step] at h
    cases hem : s.emitters t with
    | calling ids =>
      rw [hem] at h
      cases h
    | found id entry ids =>
      rw [hem] at h
      obtain rfl := Option.some.inj h
      exact .emit t id entry ids hem

/-- What is one of these is a step. -/
theorem step_of_stepped (h : Stepped s e s') : step s e = some s' := by
  cases h with
  | spawn k clientId hnone => exact if_pos hnone
  | addClient k sess hsess hpoint =>
    rw [step, hsess]
    exact if_pos hpoint
  | getClientSlot k sess hsess hpoint =>
    rw [step, hsess]
    exact if_pos hpoint
  | removeClient k sess hsess hpoint =>
    rw [step, hsess]
    exact if_pos hpoint
  | emitClient t id hidle => exact if_pos hidle
  | copyIds t hidle => exact if_pos hidle
  | lookUp t id ids hcalling hid =>
    rw [step, hcalling]
    exact if_pos hid
  | emit t id entry ids hfound => rw [step, hfound]

/-! ### The entries -/

@[simp]
theorem addClient_emitters (clientId : ℕ) (s : State) :
    (s.addClient clientId).emitters = s.emitters := by
  rw [State.addClient]
  split_ifs
  · rfl
  · rfl

@[simp]
theorem addClient_sessions (clientId : ℕ) (s : State) :
    (s.addClient clientId).sessions = s.sessions := by
  rw [State.addClient]
  split_ifs
  · rfl
  · rfl

/-- The clients after an insertion. -/
theorem mem_addClient (clientId id : ℕ) (s : State) :
    id ∈ (s.addClient clientId).clientCancel ↔ id = clientId ∨ id ∈ s.clientCancel := by
  rw [State.addClient]
  split_ifs with hmem
  · refine ⟨Or.inr, ?_⟩
    rintro (rfl | hold)
    · exact hmem
    · exact hold
  · exact Finmap.mem_insert

/-- An insertion leaves the other entries alone. -/
theorem lookup_addClient (h : s.clientCancel.lookup id = some entry) (clientId : ℕ) :
    (s.addClient clientId).clientCancel.lookup id = some entry := by
  rw [State.addClient]
  split_ifs with hmem
  · exact h
  · have hne : id ≠ clientId := by
      rintro rfl
      exact hmem (Finmap.mem_iff.mpr ⟨entry, h⟩)
    exact (Finmap.lookup_insert_of_ne s.clientCancel hne).trans h

/-- What is there after an insertion has been there, or is new. -/
theorem lookup_of_addClient
    (h : (s.addClient clientId).clientCancel.lookup id = some entry) :
    s.clientCancel.lookup id = some entry ∨
      clientId ∉ s.clientCancel ∧ entry = s.inserted := by
  rw [State.addClient] at h
  split_ifs at h with hmem
  · exact Or.inl h
  · by_cases hid : id = clientId
    · subst hid
      have hnew : some s.inserted = some entry := (Finmap.lookup_insert _).symm.trans h
      exact Or.inr ⟨hmem, (Option.some.inj hnew).symm⟩
    · exact Or.inl ((Finmap.lookup_insert_of_ne s.clientCancel hid).symm.trans h)

/-- After an insertion there is an entry. -/
theorem exists_lookup_addClient (clientId : ℕ) (s : State) :
    ∃ entry, (s.addClient clientId).clientCancel.lookup clientId = some entry := by
  rw [State.addClient]
  split_ifs with hmem
  · exact Finmap.mem_iff.mp hmem
  · exact ⟨s.inserted, Finmap.lookup_insert s.clientCancel⟩

theorem lookup_removeClient (hne : id ≠ clientId) :
    (s.removeClient clientId).clientCancel.lookup id = s.clientCancel.lookup id :=
  Finmap.lookup_erase_ne hne

theorem lookup_removeClient_self (id : ℕ) (s : State) :
    (s.removeClient id).clientCancel.lookup id = none :=
  Finmap.lookup_erase id s.clientCancel

theorem lookup_of_removeClient
    (h : (s.removeClient clientId).clientCancel.lookup id = some entry) :
    s.clientCancel.lookup id = some entry := by
  by_cases hid : id = clientId
  · subst hid
    rw [lookup_removeClient_self] at h
    cases h
  · rwa [lookup_removeClient hid] at h

/-! ### The signals in use -/

/-- What a thread has found is registered. -/
def Emitter.Registered (clientCancel : Finmap fun _ : ℕ => ℕ) : Emitter → Prop
  | .found id entry _ => clientCancel.lookup id = some entry
  | .calling _ => True

/-- A thread is in `emit_client(id)`, behind the locked section. -/
def Emitter.Holds (id : ℕ) : Emitter → Prop
  | .found id' _ _ => id' = id
  | .calling _ => False

/-- An `emit` is on the signal of an entry that is registered for the id. -/
def EmitsRegistered (s : State) : Event → Prop
  | .emit t => (s.emitters t).Registered s.clientCancel
  | _ => True

/-- A `remove_client` comes at a time when no thread is in `emit_client` for the id, behind the
locked section. -/
def RemovesUnheld (s : State) : Event → Prop
  | .removeClient k => ∀ sess, s.sessions k = some sess →
      ∀ t, ¬ (s.emitters t).Holds sess.clientId
  | _ => True

/-- All signals that have been found are registered. -/
def AllRegistered (s : State) : Prop :=
  ∀ t, (s.emitters t).Registered s.clientCancel

/-- One thread goes on, to something that is registered. -/
theorem AllRegistered.setEmitter (h : AllRegistered s) (t : ℕ) (em : Emitter)
    (hem : em.Registered s.clientCancel) : AllRegistered (s.setEmitter t em) := by
  intro t'
  show (Function.update s.emitters t em t').Registered s.clientCancel
  by_cases ht : t' = t
  · rw [ht, Function.update_self]
    exact hem
  · rw [Function.update_of_ne ht]
    exact h t'

/-- **Every step** keeps all signals registered, if it removes none that has been found. -/
theorem allRegistered_step (h : AllRegistered s) (hok : RemovesUnheld s e)
    (hstep : step s e = some s') : AllRegistered s' := by
  cases stepped_of_step hstep with
  | spawn k clientId hnone => exact h
  | addClient k sess hsess hpoint =>
    intro t
    show ((s.addClient sess.clientId).emitters t).Registered
      (s.addClient sess.clientId).clientCancel
    have ht := h t
    rw [addClient_emitters]
    cases hem : s.emitters t with
    | calling ids => trivial
    | found id entry ids =>
      rw [hem] at ht
      exact lookup_addClient ht sess.clientId
  | getClientSlot k sess hsess hpoint => exact h
  | removeClient k sess hsess hpoint =>
    intro t
    show (s.emitters t).Registered (s.removeClient sess.clientId).clientCancel
    have ht := h t
    have hfree := hok sess hsess t
    cases hem : s.emitters t with
    | calling ids => trivial
    | found id entry ids =>
      rw [hem] at ht hfree
      exact (lookup_removeClient hfree).trans ht
  | emitClient t id hidle => exact h.setEmitter t (.calling _) trivial
  | copyIds t hidle => exact h.setEmitter t (.calling _) trivial
  | lookUp t id ids hcalling hid =>
    rw [State.lookUp]
    cases hlookup : s.clientCancel.lookup id with
    | none => exact h.setEmitter t (.calling _) trivial
    | some entry => exact h.setEmitter t (.found id entry _) hlookup
  | emit t id entry ids hfound => exact h.setEmitter t (.calling _) trivial

/-! ### The end of a run -/

/-- The entries, and those that have been found, have been inserted. -/
structure Allocated (s : State) : Prop where
  registered : ∀ id entry, s.clientCancel.lookup id = some entry → entry < s.inserted
  found : ∀ t id entry ids, s.emitters t = .found id entry ids → entry < s.inserted

theorem Allocated.setEmitter (h : Allocated s) (t : ℕ) (em : Emitter)
    (hem : ∀ id entry ids, em = .found id entry ids → entry < s.inserted) :
    Allocated (s.setEmitter t em) := by
  refine ⟨h.registered, fun t' id entry ids hfound => ?_⟩
  change Function.update s.emitters t em t' = .found id entry ids at hfound
  by_cases ht : t' = t
  · rw [ht, Function.update_self] at hfound
    exact hem id entry ids hfound
  · rw [Function.update_of_ne ht] at hfound
    exact h.found t' id entry ids hfound

/-- One thread goes on, with no signal. -/
theorem Allocated.calling (h : Allocated s) (t : ℕ) (ids : Finset ℕ) :
    Allocated (s.setEmitter t (.calling ids)) := by
  apply h.setEmitter
  rintro id entry ids' ⟨⟩

theorem Allocated.addClient (h : Allocated s) (clientId : ℕ) :
    Allocated (s.addClient clientId) := by
  have hle : s.inserted ≤ (s.addClient clientId).inserted := by
    rw [State.addClient]
    split_ifs
    · exact le_rfl
    · exact Nat.le_succ _
  constructor
  · intro id entry hlookup
    rcases lookup_of_addClient hlookup with hold | ⟨hnew, rfl⟩
    · exact (h.registered id entry hold).trans_le hle
    · rw [State.addClient, if_neg hnew]
      exact Nat.lt_succ_self _
  · intro t id entry ids hfound
    rw [addClient_emitters] at hfound
    exact (h.found t id entry ids hfound).trans_le hle

theorem allocated_init : Allocated {} := by
  constructor
  · intro id entry hlookup
    rw [Finmap.lookup_empty] at hlookup
    cases hlookup
  · intro t id entry ids hfound
    cases hfound

theorem allocated_step (h : Allocated s) (hstep : step s e = some s') : Allocated s' := by
  cases stepped_of_step hstep with
  | spawn k clientId hnone => exact ⟨h.registered, h.found⟩
  | addClient k sess hsess hpoint =>
    have hadd := h.addClient sess.clientId
    exact ⟨hadd.registered, hadd.found⟩
  | getClientSlot k sess hsess hpoint => exact ⟨h.registered, h.found⟩
  | removeClient k sess hsess hpoint =>
    exact ⟨fun id entry hlookup => h.registered id entry (lookup_of_removeClient hlookup), h.found⟩
  | emitClient t id hidle => exact h.calling t _
  | copyIds t hidle => exact h.calling t _
  | lookUp t id ids hcalling hid =>
    rw [State.lookUp]
    cases hlookup : s.clientCancel.lookup id with
    | none => exact h.calling t _
    | some entry =>
      refine h.setEmitter t _ fun id' entry' ids' heq => ?_
      obtain ⟨rfl, rfl, rfl⟩ := Emitter.found.inj heq
      exact h.registered id entry hlookup
  | emit t id entry ids hfound => exact h.calling t _

/-- What a thread has found stays until it emits. -/
theorem emitters_of_step (hstep : step s e = some s') (hem : s.emitters t = .found id entry ids)
    (hemit : e ≠ .emit t) : s'.emitters t = .found id entry ids := by
  have hne : ∀ t' ids, s.emitters t' = .calling ids → t ≠ t' := by
    rintro t' ids hcalling rfl
    rw [hem] at hcalling
    cases hcalling
  rw [← hem]
  cases stepped_of_step hstep with
  | spawn k clientId hnone => rfl
  | addClient k sess hsess hpoint => exact congrFun (addClient_emitters sess.clientId s) t
  | getClientSlot k sess hsess hpoint => rfl
  | removeClient k sess hsess hpoint => rfl
  | emitClient t' id' hidle => exact Function.update_of_ne (hne t' _ hidle) _ _
  | copyIds t' hidle => exact Function.update_of_ne (hne t' _ hidle) _ _
  | lookUp t' id' ids' hcalling hid =>
    rw [State.lookUp]
    cases s.clientCancel.lookup id' with
    | none => exact Function.update_of_ne (hne t' _ hcalling) _ _
    | some entry' => exact Function.update_of_ne (hne t' _ hcalling) _ _
  | emit t' id' entry' ids' hfound =>
    refine Function.update_of_ne ?_ _ _
    rintro rfl
    exact hemit rfl

/-- An entry that has been inserted before a step, and is there behind it, has been there. -/
theorem lookup_of_step (hstep : step s e = some s') (hold : entry < s.inserted)
    (h : s'.clientCancel.lookup id = some entry) : s.clientCancel.lookup id = some entry := by
  cases stepped_of_step hstep with
  | spawn k clientId hnone => exact h
  | addClient k sess hsess hpoint =>
    rcases lookup_of_addClient h with hlookup | ⟨-, rfl⟩
    · exact hlookup
    · exact absurd hold (Nat.lt_irrefl _)
  | getClientSlot k sess hsess hpoint => exact h
  | removeClient k sess hsess hpoint => exact lookup_of_removeClient h
  | emitClient t id' hidle => exact h
  | copyIds t hidle => exact h
  | lookUp t id' ids hcalling hid =>
    rw [State.lookUp] at h
    cases hlookup : s.clientCancel.lookup id' with
    | none =>
      rw [hlookup] at h
      exact h
    | some entry' =>
      rw [hlookup] at h
      exact h
  | emit t id' entry' ids hfound => exact h

/-- **A step before a state with all signals registered**, if it emits on one that is registered:
all have been registered before, and it has removed none of them. -/
theorem allRegistered_of_step (hinv : Allocated s) (hok : EmitsRegistered s e)
    (hstep : step s e = some s') (h : AllRegistered s') : AllRegistered s ∧ RemovesUnheld s e := by
  have hstays : ∀ {t id entry ids}, s.emitters t = .found id entry ids → e ≠ .emit t →
      s'.clientCancel.lookup id = some entry := by
    intro t id entry ids hem hemit
    have ht := h t
    rwa [emitters_of_step hstep hem hemit] at ht
  constructor
  · intro t
    cases hem : s.emitters t with
    | calling ids => trivial
    | found id entry ids =>
      by_cases hemit : e = .emit t
      · subst hemit
        rw [← hem]
        exact hok
      · exact lookup_of_step hstep (hinv.found t id entry ids hem) (hstays hem hemit)
  · cases stepped_of_step hstep with
    | removeClient k sess hsess hpoint =>
      intro sess' hsess' t hholds
      obtain rfl : sess = sess' := Option.some.inj (hsess.symm.trans hsess')
      cases hem : s.emitters t with
      | calling ids =>
        rw [hem] at hholds
        exact hholds
      | found id entry ids =>
        rw [hem] at hholds
        have hgone := hstays hem (by rintro ⟨⟩)
        rw [show id = sess.clientId from hholds] at hgone
        exact absurd ((lookup_removeClient_self sess.clientId s).symm.trans hgone) (by rintro ⟨⟩)
    | _ => trivial

/-! ### Runs -/

/-- The `emit`s of a run that removes no signal which has been found. -/
theorem guarded_emitsRegistered {es : List Event} (hall : AllRegistered s)
    (hguard : Guarded step RemovesUnheld s es) : Guarded step EmitsRegistered s es := by
  refine guarded_of_invariant allRegistered_step (fun {s e} hall _ => ?_) hall hguard
  cases e with
  | emit t => exact hall t
  | _ => trivial

theorem allRegistered_init : AllRegistered {} :=
  fun _ => trivial

/-- **A signal is used while it is registered** in every run in which no `remove_client` comes
between the lookup and the `emit` of an `emit_client` of the same id; and in no other run in which
all calls of `emit_client` have got to their end. -/
theorem emitsRegistered_of_guarded {es : List Event} {s : State} (h : run step {} es = some s) :
    (Guarded step RemovesUnheld {} es → Guarded step EmitsRegistered {} es) ∧
      ((∀ t id, ¬ (s.emitters t).Holds id) →
        Guarded step EmitsRegistered {} es → Guarded step RemovesUnheld {} es) := by
  constructor
  · exact guarded_emitsRegistered allRegistered_init
  · intro hdone hguard
    have hend : AllRegistered s := by
      intro t
      cases hem : s.emitters t with
      | calling ids => trivial
      | found id entry ids =>
        refine absurd ?_ (hdone t id)
        rw [hem]
        rfl
    exact (guarded_of_back allocated_step allRegistered_of_step allocated_init hguard h hend).2

/-- A client disconnects when the `emit` to it is over. -/
def disconnectWhenStopped : List Event :=
  [.spawn 1 1, .addClient 1, .getClientSlot 1, .copyIds 0, .lookUp 0 1, .emit 0, .removeClient 1]

theorem emitsRegistered_of_guarded_disconnect :
    Guarded step EmitsRegistered {} disconnectWhenStopped := by
  obtain ⟨s, hrun⟩ : ∃ s, run step {} disconnectWhenStopped = some s := ⟨_, rfl⟩
  apply (emitsRegistered_of_guarded hrun).1
  iterate 6 refine (guarded_cons_of_step rfl).mpr ⟨trivial, ?_⟩
  -- only the last step removes something
  refine ⟨?_, fun _ _ => trivial⟩
  intro sess hsess t
  cases t with
  | zero => exact id
  | succ t => exact id

/-- A client disconnects between the two steps of `emit_client`. -/
def disconnectWhileStopping : List Event :=
  [.spawn 1 1, .addClient 1, .getClientSlot 1, .copyIds 0, .lookUp 0 1, .removeClient 1, .emit 0]

theorem not_emitsRegistered_disconnect :
    ∃ s, run step {} disconnectWhileStopping = some s ∧
      ¬ Guarded step EmitsRegistered {} disconnectWhileStopping := by
  refine ⟨_, rfl, fun h => ?_⟩
  have hemit := ((((((h.2 _ rfl).2 _ rfl).2 _ rfl).2 _ rfl).2 _ rfl).2 _ rfl).1
  have hlookup : Finmap.lookup 1 (∅ : Finmap fun _ : ℕ => ℕ) = some 0 := hemit
  rw [Finmap.lookup_empty] at hlookup
  cases hlookup

/-! ### The slots of the sessions -/

/-- A new session has an id that no session has which has not finished. -/
def SpawnsNew (s : State) : Event → Prop
  | .spawn _ clientId => ∀ k sess, s.sessions k = some sess → sess.point ≠ .finished →
      sess.clientId ≠ clientId
  | _ => True

/-- The session has an entry, and its slot is that of the entry, as far as it has got. -/
def Entered (clientCancel : Finmap fun _ : ℕ => ℕ) (sess : Session) : Prop :=
  sess.point = .added ∨ sess.point = .running →
    ∃ entry, clientCancel.lookup sess.clientId = some entry ∧
      (sess.point = .running → sess.slot = some entry)

/-- The sessions that have not finished have different ids, and entries of their own. -/
structure SlotsRegistered (s : State) : Prop where
  distinct : ∀ k k' sess sess', s.sessions k = some sess → s.sessions k' = some sess' →
    sess.point ≠ .finished → sess'.point ≠ .finished → sess.clientId = sess'.clientId → k = k'
  entered : ∀ k sess, s.sessions k = some sess → Entered s.clientCancel sess

theorem Entered.mono {clientCancel clientCancel' : Finmap fun _ : ℕ => ℕ} {sess : Session}
    (h : Entered clientCancel sess) (hkeep : sess.point ≠ .finished → ∀ entry,
      clientCancel.lookup sess.clientId = some entry →
        clientCancel'.lookup sess.clientId = some entry) : Entered clientCancel' sess := by
  intro hpoint
  obtain ⟨entry, hlookup, hslot⟩ := h hpoint
  refine ⟨entry, hkeep ?_ entry hlookup, hslot⟩
  rintro hfinished
  rw [hfinished] at hpoint
  rcases hpoint with hno | hno
  · cases hno
  · cases hno

/-- One session goes on. -/
theorem SlotsRegistered.update (h : SlotsRegistered s) {k : ℕ} {sess : Session}
    (hsessions : s'.sessions = Function.update s.sessions k (some sess))
    (hdistinct : sess.point ≠ .finished → ∀ k' sess', k' ≠ k → s.sessions k' = some sess' →
      sess'.point ≠ .finished → sess'.clientId ≠ sess.clientId)
    (hkeep : ∀ k' sess', k' ≠ k → s.sessions k' = some sess' → sess'.point ≠ .finished →
      ∀ entry, s.clientCancel.lookup sess'.clientId = some entry →
        s'.clientCancel.lookup sess'.clientId = some entry)
    (hself : Entered s'.clientCancel sess) : SlotsRegistered s' := by
  have hof : ∀ k' sess', s'.sessions k' = some sess' →
      k' = k ∧ sess' = sess ∨ k' ≠ k ∧ s.sessions k' = some sess' := by
    intro k' sess' hsess'
    rw [hsessions] at hsess'
    by_cases hk : k' = k
    · rw [hk, Function.update_self] at hsess'
      exact Or.inl ⟨hk, (Option.some.inj hsess').symm⟩
    · rw [Function.update_of_ne hk] at hsess'
      exact Or.inr ⟨hk, hsess'⟩
  constructor
  · intro k₁ k₂ sess₁ sess₂ h₁ h₂ hp₁ hp₂ hid
    rcases hof k₁ sess₁ h₁ with ⟨rfl, rfl⟩ | ⟨hk₁, h₁⟩
    · rcases hof k₂ sess₂ h₂ with ⟨rfl, rfl⟩ | ⟨hk₂, h₂⟩
      · rfl
      · exact absurd hid.symm (hdistinct hp₁ k₂ sess₂ hk₂ h₂ hp₂)
    · rcases hof k₂ sess₂ h₂ with ⟨rfl, rfl⟩ | ⟨hk₂, h₂⟩
      · exact absurd hid (hdistinct hp₂ k₁ sess₁ hk₁ h₁ hp₁)
      · exact h.distinct k₁ k₂ sess₁ sess₂ h₁ h₂ hp₁ hp₂ hid
  · intro k' sess' hsess'
    rcases hof k' sess' hsess' with ⟨rfl, rfl⟩ | ⟨hk, hsess'⟩
    · exact hself
    · exact (h.entered k' sess' hsess').mono (hkeep k' sess' hk hsess')

theorem slotsRegistered_step (h : SlotsRegistered s) (hok : SpawnsNew s e)
    (hstep : step s e = some s') : SlotsRegistered s' := by
  -- a session that goes on keeps its id
  have hsame : ∀ {k sess}, s.sessions k = some sess → sess.point ≠ .finished →
      ∀ k' sess', k' ≠ k → s.sessions k' = some sess' → sess'.point ≠ .finished →
        sess'.clientId ≠ sess.clientId := by
    intro k sess hsess hpoint k' sess' hk hsess' hpoint' hid
    exact hk (h.distinct k' k sess' sess hsess' hsess hpoint' hpoint hid)
  cases stepped_of_step hstep with
  | spawn k clientId hnone =>
    refine h.update rfl (fun _ k' sess' _ hsess' hpoint' => hok k' sess' hsess' hpoint')
      (fun _ _ _ _ _ _ hlookup => hlookup) ?_
    rintro (hno | hno)
    · cases hno
    · cases hno
  | addClient k sess hsess hpoint =>
    have hothers := hsame hsess (by rw [hpoint]; rintro ⟨⟩)
    refine h.update (congrArg (Function.update · k _) (addClient_sessions sess.clientId s))
      (fun _ => hothers)
      (fun _ _ _ _ _ _ hlookup => lookup_addClient hlookup sess.clientId) fun _ => ?_
    obtain ⟨entry, hentry⟩ := exists_lookup_addClient sess.clientId s
    exact ⟨entry, hentry, fun hno => by cases hno⟩
  | getClientSlot k sess hsess hpoint =>
    have hothers := hsame hsess (by rw [hpoint]; rintro ⟨⟩)
    refine h.update rfl (fun _ => hothers)
      (fun _ _ _ _ _ _ hlookup => hlookup) fun _ => ?_
    obtain ⟨entry, hlookup, -⟩ := h.entered k sess hsess (Or.inl hpoint)
    exact ⟨entry, hlookup, fun _ => hlookup⟩
  | removeClient k sess hsess hpoint =>
    have hothers := hsame hsess (by rw [hpoint]; rintro ⟨⟩)
    refine h.update rfl (fun hno => absurd rfl hno) (fun k' sess' hk hsess' hpoint' entry hlookup =>
      (lookup_removeClient (hothers k' sess' hk hsess' hpoint')).trans hlookup) ?_
    rintro (hno | hno)
    · cases hno
    · cases hno
  | emitClient t id hidle => exact ⟨h.distinct, h.entered⟩
  | copyIds t hidle => exact ⟨h.distinct, h.entered⟩
  | lookUp t id ids hcalling hid =>
    rw [State.lookUp]
    cases s.clientCancel.lookup id with
    | none => exact ⟨h.distinct, h.entered⟩
    | some entry => exact ⟨h.distinct, h.entered⟩
  | emit t id entry ids hfound => exact ⟨h.distinct, h.entered⟩

/-- **The slot of a session** is that of its entry as long as it runs, if no two sessions have one
id at a time. -/
theorem slot_registered {es : List Event} {s : State} (h : run step {} es = some s)
    (hnew : Guarded step SpawnsNew {} es) {k : ℕ} {sess : Session}
    (hsess : s.sessions k = some sess) (hpoint : sess.point = .running) :
    ∃ entry, sess.slot = some entry ∧ s.clientCancel.lookup sess.clientId = some entry := by
  have hinit : SlotsRegistered {} := by
    constructor
    · intro _ _ _ _ hno
      cases hno
    · intro _ _ hno
      cases hno
  have hend := guarded_invariant slotsRegistered_step hinit hnew h
  obtain ⟨entry, hlookup, hslot⟩ := hend.entered k sess hsess (Or.inr hpoint)
  exact ⟨entry, hslot hpoint, hlookup⟩

end ClientCancel

end WebSocketsLib
