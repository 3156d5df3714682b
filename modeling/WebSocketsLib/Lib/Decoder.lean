import Mathlib.Data.List.Infix
import Mathlib.Data.Nat.Notation
import Mathlib.Data.Option.Basic

/-!
# Decoding a stream item by item

A decoder takes one item off the front of a stream, or finds none there.  `Decoder.all` is every
item at the front of a stream, one behind the other.

`Decoder.Proper` is what a decoder of a stream that is still arriving satisfies: an item takes up
some of the stream, and what has been decoded stays so whatever arrives behind it.
-/

/-- Takes one item off the front of a stream, and gives the stream behind it. -/
abbrev Decoder (β α : Type) := List β → Option (α × List β)

namespace Decoder

variable {β α γ : Type} {d : Decoder β α} {s t : List β} {a : α}

/-- The items at the front of a stream, `n` at most. -/
def items (d : Decoder β α) : ℕ → List β → List α
  | 0, _ => []
  | n + 1, s =>
    match d s with
    | none => []
    | some (a, t) => a :: items d n t

/-- The items at the front of a stream. -/
def all (d : Decoder β α) (s : List β) : List α :=
  items d s.length s

/-- A decoder that reads what it decodes, and nothing behind it. -/
structure Proper (d : Decoder β α) : Prop where
  shrinks : ∀ {s a t}, d s = some (a, t) → t.length < s.length
  append : ∀ {s a t}, d s = some (a, t) → ∀ u, d (s ++ u) = some (a, t ++ u)

theorem items_eq (hd : Proper d) {n m : ℕ} (hn : s.length ≤ n) (hm : s.length ≤ m) :
    items d n s = items d m s := by
  induction n generalizing m s with
  | zero =>
    cases m with
    | zero => rfl
    | succ m =>
      unfold items
      cases hs : d s with
      | none => rfl
      | some p =>
        have hlt := hd.shrinks (a := p.1) (t := p.2) hs
        omega
  | succ n ih =>
    cases m with
    | zero =>
      unfold items
      cases hs : d s with
      | none => rfl
      | some p =>
        have hlt := hd.shrinks (a := p.1) (t := p.2) hs
        omega
    | succ m =>
      unfold items
      cases hs : d s with
      | none => rfl
      | some p =>
        have hlt := hd.shrinks (a := p.1) (t := p.2) hs
        dsimp only
        rw [ih (by omega) (by omega : p.2.length ≤ m)]

theorem all_of_none (h : d s = none) : all d s = [] := by
  unfold all
  cases s.length with
  | zero => rfl
  | succ n =>
    unfold items
    rw [h]

theorem all_of_some (hd : Proper d) (h : d s = some (a, t)) : all d s = a :: all d t := by
  have hlt := hd.shrinks h
  obtain ⟨n, hn⟩ : ∃ n, s.length = n + 1 := ⟨s.length - 1, by omega⟩
  unfold all
  rw [hn, items, h]
  dsimp only
  rw [items_eq hd (by omega) (Nat.le_refl t.length)]

/-- The items of streams that an encoder has written, one behind the other. -/
theorem all_flatten (hd : Proper d) {enc : γ → List β} {got : γ → α} {xs : List γ}
    (h : ∀ x ∈ xs, ∀ t, d (enc x ++ t) = some (got x, t)) (t : List β) :
    all d ((xs.map enc).flatten ++ t) = xs.map got ++ all d t := by
  induction xs with
  | nil => rfl
  | cons x xs ih =>
    rw [List.map_cons, List.flatten_cons, List.append_assoc,
      all_of_some hd (h x List.mem_cons_self _),
      ih fun y hy => h y (List.mem_cons_of_mem x hy)]
    rfl

end Decoder
