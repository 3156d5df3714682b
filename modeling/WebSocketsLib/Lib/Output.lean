import Mathlib.Data.List.Basic

/-!
# Computations that emit output and can throw

`Output ω α` is the result of a program that has emitted a list of `ω` and then has returned an
`α` or thrown.  What has been emitted before an exception stays emitted.
-/

/-- What a program has emitted, and what it has returned: `none` is an exception. -/
structure Output (ω α : Type*) where
  out : List ω
  result : Option α

namespace Output

universe u v

variable {ω : Type u} {α β : Type v}

/-- Emit a list of pieces. -/
def emitAll (ws : List ω) : Output ω Unit :=
  ⟨ws, some ()⟩

def throw : Output ω α :=
  ⟨[], none⟩

protected def bind (x : Output ω α) (f : α → Output ω β) : Output ω β :=
  match x.result with
  | some a => ⟨x.out ++ (f a).out, (f a).result⟩
  | none => ⟨x.out, none⟩

instance : Monad (Output ω) where
  pure a := ⟨[], some a⟩
  bind := Output.bind

@[simp]
theorem pure_eq (a : α) : (pure a : Output ω α) = ⟨[], some a⟩ :=
  rfl

@[simp]
theorem emitAll_out (ws : List ω) : (emitAll ws).out = ws :=
  rfl

@[simp]
theorem emitAll_result (ws : List ω) : (emitAll ws).result = some () :=
  rfl

@[simp]
theorem throw_out : (throw : Output ω α).out = [] :=
  rfl

@[simp]
theorem throw_result : (throw : Output ω α).result = none :=
  rfl

/-- What a sequence emits: the second part runs when the first has returned. -/
@[simp]
theorem bind_out (x : Output ω α) (f : α → Output ω β) :
    (x >>= f).out = x.out ++ x.result.elim [] fun a => (f a).out := by
  show (Output.bind x f).out = _
  rw [Output.bind]
  cases x.result with
  | none => exact (List.append_nil _).symm
  | some a => rfl

@[simp]
theorem bind_result (x : Output ω α) (f : α → Output ω β) :
    (x >>= f).result = x.result.bind fun a => (f a).result := by
  show (Output.bind x f).result = _
  rw [Output.bind]
  cases x.result with
  | none => rfl
  | some a => rfl

end Output
