import Mathlib.Data.List.Basic
import Mathlib.Tactic.Common

/-!
# Folds whose steps can fail

A list of updates is applied to a state one after another, and each of them can fail.

* `isSome_foldlM_iff`: when it does not depend on the state whether an update fails, the fold fails
  if one of its updates does.
* `get_of_foldlM`: a component that an update sets, or leaves alone, has the last value that is set.
* `foldlM_filter`: updates that do nothing can be left out.
* `foldlM_eq_of_groups`: when updates of different groups can be exchanged, only the order within
  each group makes a difference.
-/

namespace PartialFold

variable {σ ε γ : Type*} {step : σ → ε → Option σ}

/-- **When a fold does not fail.** -/
theorem isSome_foldlM_iff {ok : ε → Prop} (hstep : ∀ s e, (step s e).isSome = true ↔ ok e)
    (es : List ε) (s : σ) : (es.foldlM step s).isSome = true ↔ ∀ e ∈ es, ok e := by
  induction es generalizing s with
  | nil => simp
  | cons e es ih =>
    rw [List.foldlM_cons, List.forall_mem_cons, ← hstep s e]
    cases step s e with
    | none => simp
    | some s' => simpa using ih s'

/-- **A component at the end of a fold.** -/
theorem get_of_foldlM (get : σ → γ) {put : ε → Option γ}
    (hstep : ∀ s e s', step s e = some s' → get s' = (put e).getD (get s))
    {es : List ε} {s s' : σ} (h : es.foldlM step s = some s') :
    get s' = ((es.filterMap put).getLast?).getD (get s) := by
  induction es generalizing s with
  | nil =>
    obtain rfl := Option.some.inj h
    rfl
  | cons e es ih =>
    rw [List.foldlM_cons] at h
    obtain ⟨s₁, hs₁, h⟩ := Option.bind_eq_some_iff.mp h
    rw [ih h, hstep s e s₁ hs₁]
    cases hput : put e with
    | none => rw [List.filterMap_cons_none hput, Option.getD_none]
    | some v =>
      rw [List.filterMap_cons_some hput, List.getLast?_cons, Option.getD_some, Option.getD_some]

/-- **Updates that do nothing** can be left out. -/
theorem foldlM_filter {p : ε → Bool} (hnothing : ∀ s e, p e = false → step s e = some s)
    (es : List ε) (s : σ) : (es.filter p).foldlM step s = es.foldlM step s := by
  induction es generalizing s with
  | nil => rfl
  | cons e es ih =>
    rw [List.foldlM_cons]
    cases hp : p e with
    | true =>
      rw [List.filter_cons_of_pos hp, List.foldlM_cons]
      exact congrArg (Option.bind (step s e)) (funext ih)
    | false =>
      rw [List.filter_cons_of_neg (Bool.not_eq_true _ ▸ hp), hnothing s e hp]
      exact ih s

/-! ### Exchanging updates -/

/-- Two updates can be exchanged. -/
def Exchange (step : σ → ε → Option σ) (e e' : ε) : Prop :=
  ∀ s, ((step s e).bind fun s' => step s' e') = (step s e').bind fun s' => step s' e

/-- An update that can be exchanged with all those in front of it can be made first. -/
theorem foldlM_append_cons {e : ε} {before : List ε} (h : ∀ e' ∈ before, Exchange step e' e)
    (after : List ε) (s : σ) :
    (before ++ e :: after).foldlM step s = (e :: (before ++ after)).foldlM step s := by
  induction before generalizing s with
  | nil => rfl
  | cons e' before ih =>
    obtain ⟨he', hbefore⟩ := List.forall_mem_cons.mp h
    calc ((e' :: before) ++ e :: after).foldlM step s
        = (step s e').bind fun s' => (before ++ e :: after).foldlM step s' := rfl
      _ = (step s e').bind fun s' => (step s' e).bind fun s'' =>
            (before ++ after).foldlM step s'' := by
          congr 1
          funext s'
          exact ih hbefore s'
      _ = (step s e).bind fun s' => (step s' e').bind fun s'' =>
            (before ++ after).foldlM step s'' := by
          rw [← Option.bind_assoc, he' s, Option.bind_assoc]
      _ = (e :: ((e' :: before) ++ after)).foldlM step s := rfl

/-- The updates of a group. -/
def ofGroup {ι : Type*} [DecidableEq ι] (group : ε → ι) (i : ι) (es : List ε) : List ε :=
  es.filter fun e => decide (group e = i)

section Groups

variable {ι : Type*} [DecidableEq ι] (group : ε → ι) {i : ι} {e : ε} {es : List ε}

theorem ofGroup_cons_self (e : ε) (es : List ε) :
    ofGroup group (group e) (e :: es) = e :: ofGroup group (group e) es :=
  List.filter_cons_of_pos (decide_eq_true rfl)

theorem ofGroup_cons_of_ne (h : group e ≠ i) (es : List ε) :
    ofGroup group i (e :: es) = ofGroup group i es :=
  List.filter_cons_of_neg (by simpa using h)

theorem ofGroup_append (es es' : List ε) :
    ofGroup group i (es ++ es') = ofGroup group i es ++ ofGroup group i es' :=
  List.filter_append es es'

theorem ofGroup_eq_nil (h : ∀ e ∈ es, group e ≠ i) : ofGroup group i es = [] :=
  List.filter_eq_nil_iff.mpr fun e he => by simpa using h e he

/-- **Groups of updates**: when updates of different groups can be exchanged, two lists with the
same updates of each group, in the same order, do the same. -/
theorem foldlM_eq_of_groups (hexchange : ∀ e e', group e ≠ group e' → Exchange step e e')
    {es es' : List ε} (h : ∀ i, ofGroup group i es = ofGroup group i es') (s : σ) :
    es.foldlM step s = es'.foldlM step s := by
  induction es generalizing es' s with
  | nil =>
    cases es' with
    | nil => rfl
    | cons e es' =>
      have hcons := h (group e)
      rw [ofGroup_cons_self] at hcons
      cases hcons
  | cons e es ih =>
    -- the first update of its group in the other list
    have hgroup := h (group e)
    rw [ofGroup_cons_self] at hgroup
    obtain ⟨before, after, rfl, hbefore, -, hafter⟩ := List.filter_eq_cons_iff.mp hgroup.symm
    have hothers : ∀ e' ∈ before, group e' ≠ group e := fun e' he' => by simpa using hbefore e' he'
    rw [foldlM_append_cons fun e' he' => hexchange e' e (hothers e' he'), List.foldlM_cons,
      List.foldlM_cons]
    refine congrArg (Option.bind (step s e)) (funext fun s' => ih (fun i => ?_) s')
    have hi := h i
    rw [ofGroup_append]
    rw [ofGroup_append] at hi
    by_cases hei : group e = i
    · subst hei
      rw [ofGroup_eq_nil group hothers, ofGroup_cons_self, ofGroup_cons_self] at hi
      rw [ofGroup_eq_nil group hothers]
      exact (List.cons.inj hi).2
    · rwa [ofGroup_cons_of_ne group hei, ofGroup_cons_of_ne group hei] at hi

end Groups

end PartialFold
