import Mathlib.Data.Nat.Notation
import Mathlib.Data.Option.Basic

/-!
# Runs of a step function

A system is given by `step : σ → ε → Option σ`: the event `e` is possible in the state `s` when
`step s e` is not `none`.  `run` executes a list of events.

* `run_invariant`: what every step preserves holds in every state that a run reaches.
* `guarded_invariant`: the same for the runs whose steps all meet a condition on the state and the
  event (`Guarded`).
* `run_progress`: a run is no longer than what its steps can raise and lower.
* `forall_prefix_iff_guarded`: every state of a run is good exactly when all its steps meet a
  condition, if a step that does not meet it leads to a state that is not good.
* `guarded_iff`, `run_iff_guarded`: a property that a step keeps exactly when it meets a condition
  holds at the end of a run exactly when all its steps meet it.
* `guarded_of_invariant`: in the runs whose steps meet a condition that keeps an invariant, they
  meet what follows from both.
* `guarded_of_back`: what the end of a run and a condition on its steps say about its beginning.
* `leads_of_simulates`: when every step of one system is a run of another, so is every run.
-/

namespace Runs

variable {σ ε : Type*} (step : σ → ε → Option σ)

/-- The state after the events, `none` when one of them is not possible. -/
def run : σ → List ε → Option σ
  | s, [] => some s
  | s, e :: es => (step s e).bind fun s' => run s' es

/-- Every step of the run meets `ok`. -/
def Guarded (ok : σ → ε → Prop) : σ → List ε → Prop
  | _, [] => True
  | s, e :: es => ok s e ∧ ∀ s', step s e = some s' → Guarded ok s' es

variable {step}

theorem run_cons_eq_some {s s' : σ} {e : ε} {es : List ε} (h : run step s (e :: es) = some s') :
    ∃ s₁, step s e = some s₁ ∧ run step s₁ es = some s' :=
  Option.bind_eq_some_iff.mp h

theorem guarded_cons_of_step {ok : σ → ε → Prop} {s s' : σ} {e : ε} {es : List ε}
    (h : step s e = some s') : Guarded step ok s (e :: es) ↔ ok s e ∧ Guarded step ok s' es := by
  refine and_congr_right fun _ => ⟨fun hg => hg s' h, fun hg s₁ h₁ => ?_⟩
  obtain rfl : s' = s₁ := Option.some.inj (h.symm.trans h₁)
  exact hg

theorem guarded_cons_of_none {ok : σ → ε → Prop} {s : σ} {e : ε} {es : List ε}
    (h : step s e = none) : Guarded step ok s (e :: es) ↔ ok s e :=
  and_iff_left fun s' hs' => by rw [h] at hs'; cases hs'

theorem Guarded.mono {ok ok' : σ → ε → Prop} (himp : ∀ s e, ok s e → ok' s e) {s : σ} {es : List ε}
    (h : Guarded step ok s es) : Guarded step ok' s es := by
  induction es generalizing s with
  | nil => exact trivial
  | cons e es ih => exact ⟨himp s e h.1, fun s' h' => ih (h.2 s' h')⟩

theorem Guarded.and {ok ok' : σ → ε → Prop} {s : σ} {es : List ε} (h : Guarded step ok s es)
    (h' : Guarded step ok' s es) : Guarded step (fun s e => ok s e ∧ ok' s e) s es := by
  induction es generalizing s with
  | nil => trivial
  | cons e es ih => exact ⟨⟨h.1, h'.1⟩, fun s₁ h₁ => ih (h.2 s₁ h₁) (h'.2 s₁ h₁)⟩

/-- Whether a run meets a decidable condition can be computed. -/
def decidableGuarded {ok : σ → ε → Prop} [∀ s e, Decidable (ok s e)] :
    (s : σ) → (es : List ε) → Decidable (Guarded step ok s es)
  | _, [] => isTrue trivial
  | s, e :: es =>
    match h : step s e with
    | none => decidable_of_iff (ok s e) (guarded_cons_of_none h).symm
    | some s' =>
      have : Decidable (Guarded step ok s' es) := decidableGuarded s' es
      decidable_of_iff (ok s e ∧ Guarded step ok s' es) (guarded_cons_of_step h).symm

instance {ok : σ → ε → Prop} [∀ s e, Decidable (ok s e)] (s : σ) (es : List ε) :
    Decidable (Guarded step ok s es) :=
  decidableGuarded s es

/-- A condition on the events alone. -/
theorem guarded_iff_forall {p : ε → Prop} {s s' : σ} {es : List ε} (h : run step s es = some s') :
    Guarded step (fun _ e => p e) s es ↔ ∀ e ∈ es, p e := by
  induction es generalizing s with
  | nil => exact iff_of_true trivial fun _ he => absurd he List.not_mem_nil
  | cons e es ih =>
    obtain ⟨s₁, h₁, h⟩ := run_cons_eq_some h
    rw [guarded_cons_of_step h₁, ih h, List.forall_mem_cons]

/-- Two runs, one after the other. -/
theorem run_append (s : σ) (es es' : List ε) :
    run step s (es ++ es') = (run step s es).bind fun s' => run step s' es' := by
  induction es generalizing s with
  | nil => rfl
  | cons e es ih =>
    rw [List.cons_append, run, run, Option.bind_assoc]
    congr 1
    funext s₁
    exact ih s₁

theorem run_append_of_some {s s₁ s₂ : σ} {es es' : List ε} (h : run step s es = some s₁)
    (h' : run step s₁ es' = some s₂) : run step s (es ++ es') = some s₂ := by
  rw [run_append, h]
  exact h'

theorem run_singleton {s s' : σ} {e : ε} (h : step s e = some s') : run step s [e] = some s' := by
  rw [run, h]
  rfl

theorem guarded_append {ok : σ → ε → Prop} {s s' : σ} {es es' : List ε}
    (h : run step s es = some s') :
    Guarded step ok s (es ++ es') ↔ Guarded step ok s es ∧ Guarded step ok s' es' := by
  induction es generalizing s with
  | nil =>
    obtain rfl : s = s' := Option.some.inj h
    exact (and_iff_right trivial).symm
  | cons e es ih =>
    obtain ⟨s₁, h₁, h⟩ := run_cons_eq_some h
    rw [List.cons_append, guarded_cons_of_step h₁, guarded_cons_of_step h₁, ih h, and_assoc]

/-- **Runs keep an invariant** that every guarded step keeps. -/
theorem guarded_invariant {ok : σ → ε → Prop} {Inv : σ → Prop}
    (hstep : ∀ {s e s'}, Inv s → ok s e → step s e = some s' → Inv s') {s s' : σ} {es : List ε}
    (hs : Inv s) (hok : Guarded step ok s es) (h : run step s es = some s') : Inv s' := by
  induction es generalizing s with
  | nil =>
    obtain rfl : s = s' := Option.some.inj h
    exact hs
  | cons e es ih =>
    obtain ⟨s₁, h₁, h⟩ := run_cons_eq_some h
    exact ih (hstep hs hok.1 h₁) (hok.2 s₁ h₁) h

/-- **Steps under an invariant** that the guarded steps keep. -/
theorem guarded_of_invariant {ok ok' : σ → ε → Prop} {Inv : σ → Prop}
    (hstep : ∀ {s e s'}, Inv s → ok s e → step s e = some s' → Inv s')
    (himp : ∀ {s e}, Inv s → ok s e → ok' s e) {s : σ} {es : List ε} (hs : Inv s)
    (hok : Guarded step ok s es) : Guarded step ok' s es := by
  induction es generalizing s with
  | nil => exact trivial
  | cons e es ih => exact ⟨himp hs hok.1, fun s' h => ih (hstep hs hok.1 h) (hok.2 s' h)⟩

/-- **Reasoning from the end of a run**: when the state before a step is good, and the step meets
`ok'`, if the state behind it is good. -/
theorem guarded_of_back {ok ok' : σ → ε → Prop} {Inv Good : σ → Prop}
    (hstep : ∀ {s e s'}, Inv s → step s e = some s' → Inv s')
    (hback : ∀ {s e s'}, Inv s → ok s e → step s e = some s' → Good s' → Good s ∧ ok' s e)
    {s t : σ} {es : List ε} (hs : Inv s) (hok : Guarded step ok s es) (h : run step s es = some t)
    (hgood : Good t) : Good s ∧ Guarded step ok' s es := by
  induction es generalizing s with
  | nil =>
    obtain rfl : s = t := Option.some.inj h
    exact ⟨hgood, trivial⟩
  | cons e es ih =>
    obtain ⟨s₁, h₁, h⟩ := run_cons_eq_some h
    obtain ⟨hgood₁, hguarded⟩ := ih (hstep hs h₁) (hok.2 s₁ h₁) h
    obtain ⟨hgood, hok'⟩ := hback hs hok.1 h₁ hgood₁
    exact ⟨hgood, (guarded_cons_of_step h₁).mpr ⟨hok', hguarded⟩⟩

/-- Runs keep an invariant that every step keeps. -/
theorem run_invariant {Inv : σ → Prop}
    (hstep : ∀ {s e s'}, Inv s → step s e = some s' → Inv s') {s s' : σ} {es : List ε}
    (hs : Inv s) (h : run step s es = some s') : Inv s' := by
  induction es generalizing s with
  | nil =>
    obtain rfl : s = s' := Option.some.inj h
    exact hs
  | cons e es ih =>
    obtain ⟨s₁, h₁, h⟩ := run_cons_eq_some h
    exact ih (hstep hs h₁) h

/-- **Runs of bounded length**: the invariant is about a state and a ghost value, and every step
raises `up` or lowers `down`. -/
theorem run_progress {γ : Type*} {Inv : σ → γ → Prop} {up : σ → γ → ℕ} {down : σ → ℕ}
    (hstep : ∀ {s g e s'}, Inv s g → step s e = some s' →
      ∃ g', Inv s' g' ∧ up s g + down s' < up s' g' + down s) {s s' : σ} {g : γ} {es : List ε}
    (hs : Inv s g) (h : run step s es = some s') :
    ∃ g', Inv s' g' ∧ up s g + down s' + es.length ≤ up s' g' + down s := by
  induction es generalizing s g with
  | nil =>
    obtain rfl : s = s' := Option.some.inj h
    exact ⟨g, hs, Nat.le_refl _⟩
  | cons e es ih =>
    obtain ⟨s₁, h₁, h⟩ := run_cons_eq_some h
    obtain ⟨g₁, hs₁, hone⟩ := hstep hs h₁
    obtain ⟨g', hs', hmany⟩ := ih hs₁ h
    refine ⟨g', hs', ?_⟩
    rw [List.length_cons]
    omega

/-- **An exact condition**: when a step under `ok` keeps `Good` exactly if it meets `ok'`, a run
under `ok` ends in a good state exactly if all its steps meet `ok'`. -/
theorem guarded_iff {ok ok' : σ → ε → Prop} {Inv Good : σ → Prop}
    (hstep : ∀ {s e s'}, Inv s → ok s e → step s e = some s' →
      Inv s' ∧ (Good s' ↔ Good s ∧ ok' s e)) {s s' : σ} {es : List ε}
    (hs : Inv s) (hok : Guarded step ok s es) (h : run step s es = some s') :
    Good s' ↔ Good s ∧ Guarded step ok' s es := by
  induction es generalizing s with
  | nil =>
    obtain rfl : s = s' := Option.some.inj h
    exact ⟨fun hg => ⟨hg, trivial⟩, And.left⟩
  | cons e es ih =>
    obtain ⟨s₁, h₁, h⟩ := run_cons_eq_some h
    obtain ⟨hs₁, hgood⟩ := hstep hs hok.1 h₁
    rw [ih hs₁ (hok.2 s₁ h₁) h, hgood, and_assoc, guarded_cons_of_step h₁]

/-- An exact condition for runs of all kinds, from a good state. -/
theorem run_iff_guarded {ok : σ → ε → Prop} {Inv Good : σ → Prop}
    (hstep : ∀ {s e s'}, Inv s → step s e = some s' → Inv s' ∧ (Good s' ↔ Good s ∧ ok s e))
    {s s' : σ} {es : List ε} (hs : Inv s) (hgood : Good s) (h : run step s es = some s') :
    Good s' ↔ Guarded step ok s es := by
  have htrue : Guarded step (fun _ _ => True) s es :=
    (guarded_iff_forall (p := fun _ => True) h).mpr fun _ _ => trivial
  rw [guarded_iff (fun hinv _ => hstep hinv) hs htrue h, and_iff_right hgood]

/-- **An exact condition on the states of a run**: when the steps under `ok` keep an invariant that
makes a state good, and every other step leads to a state that is not. -/
theorem forall_prefix_iff_guarded {ok : σ → ε → Prop} {Inv Good : σ → Prop}
    (hstep : ∀ {s e s'}, Inv s → ok s e → step s e = some s' → Inv s')
    (hgood : ∀ {s}, Inv s → Good s)
    (hbad : ∀ {s e s'}, step s e = some s' → Good s' → ok s e) {s t : σ} {es : List ε}
    (hs : Inv s) (h : run step s es = some t) :
    (∀ before s', before <+: es → run step s before = some s' → Good s') ↔
      Guarded step ok s es := by
  induction es generalizing s with
  | nil =>
    refine iff_of_true ?_ trivial
    intro before s' hfront hrun
    obtain rfl := List.prefix_nil.mp hfront
    obtain rfl : s = s' := Option.some.inj hrun
    exact hgood hs
  | cons e es ih =>
    obtain ⟨s₁, h₁, htail⟩ := run_cons_eq_some h
    rw [guarded_cons_of_step h₁]
    constructor
    · intro hall
      have hok : ok s e := by
        apply hbad h₁
        exact hall [e] s₁ (List.prefix_append [e] es) (run_singleton h₁)
      refine ⟨hok, (ih (hstep hs hok h₁) htail).mp ?_⟩
      intro before s' hfront hrun
      refine hall (e :: before) s' (List.cons_prefix_cons.mpr ⟨rfl, hfront⟩) ?_
      rw [run, h₁]
      exact hrun
    · rintro ⟨hok, hrest⟩ before s' hfront hrun
      cases before with
      | nil =>
        obtain rfl : s = s' := Option.some.inj hrun
        exact hgood hs
      | cons e' before =>
        obtain ⟨rfl, htail'⟩ := List.cons_prefix_cons.mp hfront
        obtain ⟨s₂, h₂, hrun'⟩ := run_cons_eq_some hrun
        obtain rfl : s₁ = s₂ := Option.some.inj (h₁.symm.trans h₂)
        exact (ih (hstep hs hok h₁) htail).mpr hrest before s' htail' hrun'

/-! ### Simulations -/

/-- A run whose steps all meet `ok` leads from one state to the other. -/
def Leads (step : σ → ε → Option σ) (ok : σ → ε → Prop) (s s' : σ) : Prop :=
  ∃ es, run step s es = some s' ∧ Guarded step ok s es

namespace Leads

variable {ok : σ → ε → Prop} {s s₁ s₂ : σ}

theorem refl (s : σ) : Leads step ok s s :=
  ⟨[], rfl, trivial⟩

theorem single {e : ε} (h : step s e = some s₁) (hok : ok s e) : Leads step ok s s₁ :=
  ⟨[e], run_singleton h, (guarded_cons_of_step h).mpr ⟨hok, trivial⟩⟩

theorem trans (h : Leads step ok s s₁) (h' : Leads step ok s₁ s₂) : Leads step ok s s₂ := by
  obtain ⟨es, hrun, hguard⟩ := h
  obtain ⟨es', hrun', hguard'⟩ := h'
  exact ⟨es ++ es', run_append_of_some hrun hrun', (guarded_append hrun).mpr ⟨hguard, hguard'⟩⟩

end Leads

/-- **A simulation**: when every step of a system leads, in another system, from a state that is
related to the one before it to one that is related to the one behind it. -/
theorem leads_of_simulates {τ ι : Type*} {step' : τ → ι → Option τ} {ok : τ → ι → Prop}
    {Rel : σ → τ → Prop}
    (hstep : ∀ {s t e s'}, Rel s t → step s e = some s' → ∃ t', Leads step' ok t t' ∧ Rel s' t')
    {s s' : σ} {t : τ} {es : List ε} (hrel : Rel s t) (h : run step s es = some s') :
    ∃ t', Leads step' ok t t' ∧ Rel s' t' := by
  induction es generalizing s t with
  | nil =>
    obtain rfl : s = s' := Option.some.inj h
    exact ⟨t, Leads.refl t, hrel⟩
  | cons e es ih =>
    obtain ⟨s₁, h₁, h⟩ := run_cons_eq_some h
    obtain ⟨t₁, hlead₁, hrel₁⟩ := hstep hrel h₁
    obtain ⟨t', hlead, hrel'⟩ := ih hrel₁ h
    exact ⟨t', hlead₁.trans hlead, hrel'⟩

end Runs
