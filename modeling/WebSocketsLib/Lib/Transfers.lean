import Mathlib.Data.List.Basic
import Mathlib.Algebra.Order.Group.Nat
import Mathlib.Tactic.Common

/-!
# Transfers in pieces

A transfer of `n` units takes one outcome after another until all units have gone over.  An outcome
moves some units, stops the transfer for good without an error, or raises an error.

`StopsShort`: one of the outcomes stops the transfer before the ones ahead of it have moved `n`
units.
-/

namespace Transfers

/-- What an outcome does to a transfer. -/
inductive Progress
  | moves (k : ℕ)
  | stops
  | raises
  deriving DecidableEq, Repr

variable {ε : Type*} (progress : ε → Progress)

/-- The outcomes move `k` units together. -/
inductive MovesAll : List ε → ℕ → Prop
  | nil : MovesAll [] 0
  | cons {e : ε} {es : List ε} {k m : ℕ} (he : progress e = .moves k) (hes : MovesAll es m) :
      MovesAll (e :: es) (k + m)

/-- An outcome stops the transfer of `n` units before they have been moved. -/
def StopsShort (outcomes : List ε) (n : ℕ) : Prop :=
  ∃ pre stop post m, outcomes = pre ++ stop :: post ∧ MovesAll progress pre m ∧ m < n ∧
    progress stop = .stops

variable {progress}

@[simp]
theorem not_stopsShort_zero (outcomes : List ε) : ¬ StopsShort progress outcomes 0 := by
  rintro ⟨_, _, _, m, -, -, hm, -⟩
  exact absurd hm (Nat.not_lt_zero m)

@[simp]
theorem not_stopsShort_nil (n : ℕ) : ¬ StopsShort progress [] n := by
  rintro ⟨pre, stop, post, -, h, -⟩
  cases pre <;> cases h

theorem stopsShort_of_stops {e : ε} (h : progress e = .stops) (rest : List ε) {n : ℕ}
    (hn : 0 < n) : StopsShort progress (e :: rest) n :=
  ⟨[], e, rest, 0, rfl, .nil, hn, h⟩

theorem not_stopsShort_of_raises {e : ε} (h : progress e = .raises) (rest : List ε) (n : ℕ) :
    ¬ StopsShort progress (e :: rest) n := by
  rintro ⟨pre, stop, post, m, heq, hpre, -, hstop⟩
  cases hpre with
  | nil =>
    obtain ⟨rfl, rfl⟩ := List.cons.inj heq
    rw [h] at hstop
    cases hstop
  | cons he _ =>
    obtain ⟨rfl, -⟩ := List.cons.inj heq
    rw [h] at he
    cases he

/-- An outcome that moves units leaves the rest of the transfer. -/
theorem stopsShort_of_moves {e : ε} {k : ℕ} (h : progress e = .moves k) (rest : List ε) (n : ℕ) :
    StopsShort progress (e :: rest) n ↔ StopsShort progress rest (n - k) := by
  constructor
  · rintro ⟨pre, stop, post, m, heq, hpre, hm, hstop⟩
    cases hpre with
    | nil =>
      obtain ⟨rfl, rfl⟩ := List.cons.inj heq
      rw [h] at hstop
      cases hstop
    | cons he hes =>
      obtain ⟨rfl, rfl⟩ := List.cons.inj heq
      obtain rfl := Progress.moves.inj (h.symm.trans he)
      exact ⟨_, stop, post, _, rfl, hes, Nat.lt_sub_of_add_lt (by rwa [Nat.add_comm]), hstop⟩
  · rintro ⟨pre, stop, post, m, rfl, hpre, hm, hstop⟩
    exact ⟨e :: pre, stop, post, k + m, rfl, .cons h hpre, by omega, hstop⟩

end Transfers
