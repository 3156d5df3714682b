import Mathlib.Tactic.Common

/-!
# Blocking readers

A `Reader` reads elements off a stream and may throw; when it throws, the stream stays where it is.
`readExactly n` reads `n` elements, and throws `eof` when the stream ends before.

While more may still arrive, a reader that meets the end of the stream waits instead.
`Incremental` says that this makes no difference: a reader that does not meet the end of what has
arrived does the same whatever arrives behind it.
-/

/-- Reads elements of type `β`, and throws exceptions of type `ε`. -/
abbrev Reader (β ε : Type) := ExceptT ε (StateM (List β))

namespace Reader

variable {β ε α γ : Type}

/-- The outcome, and the stream after it. -/
def exec (m : Reader β ε α) (s : List β) : Except ε α × List β :=
  (ExceptT.run m).run s

/-- Exactly `n` elements, or all that are left and the exception `eof`. -/
def readExactly (eof : ε) (n : ℕ) : Reader β ε (List β) :=
  ExceptT.mk fun s => if n ≤ s.length then (.ok (s.take n), s.drop n) else (.error eof, [])

@[simp]
theorem exec_pure (a : α) (s : List β) : exec (pure a : Reader β ε α) s = (.ok a, s) := rfl

@[simp]
theorem exec_throw (e : ε) (s : List β) :
    exec (throw e : Reader β ε α) s = (.error e, s) := rfl

/-- One reader after the other. -/
theorem exec_bind (m : Reader β ε α) (f : α → Reader β ε γ) (s : List β) :
    (m >>= f).exec s = match m.exec s with
      | (.ok a, s') => (f a).exec s'
      | (.error e, s') => (.error e, s') := by
  unfold exec
  rw [ExceptT.run_bind, StateT.run_bind]
  show (match (ExceptT.run m).run s with | (x, s') => _) = _
  rcases (ExceptT.run m).run s with ⟨_ | _, _⟩
  · rfl
  · rfl

theorem exec_bind_of_ok {m : Reader β ε α} {s s' : List β} {a : α} (f : α → Reader β ε γ)
    (h : m.exec s = (.ok a, s')) : (m >>= f).exec s = (f a).exec s' := by
  rw [exec_bind, h]

theorem exec_readExactly (eof : ε) (n : ℕ) (s : List β) : (readExactly eof n).exec s =
    if n ≤ s.length then (.ok (s.take n), s.drop n) else (.error eof, []) := rfl

theorem exec_readExactly_append (eof : ε) (x s : List β) :
    (readExactly eof x.length).exec (x ++ s) = (.ok x, s) := by
  rw [exec_readExactly, if_pos (by simp), List.take_left, List.drop_left]

/-- What a bind that returns has done: its first reader has returned. -/
theorem exec_bind_eq_ok {m : Reader β ε α} {f : α → Reader β ε γ} {s t : List β} {c : γ}
    (h : (m >>= f).exec s = (.ok c, t)) :
    ∃ a s', m.exec s = (.ok a, s') ∧ (f a).exec s' = (.ok c, t) := by
  rw [exec_bind] at h
  rcases hexec : m.exec s with ⟨e | a, s'⟩
  · rw [hexec] at h
    have herror : (Except.error e : Except ε γ) = .ok c := congrArg Prod.fst h
    nomatch herror
  · rw [hexec] at h
    exact ⟨a, s', rfl, h⟩

theorem exec_readExactly_eq_ok {eof : ε} {n : ℕ} {s x t : List β}
    (h : (readExactly eof n).exec s = (.ok x, t)) : s = x ++ t ∧ x.length = n := by
  rw [exec_readExactly] at h
  split_ifs at h with hle
  · obtain ⟨hx, rfl⟩ := Prod.mk.inj h
    obtain rfl := Except.ok.inj hx
    exact ⟨(List.take_append_drop n s).symm, List.length_take_of_le hle⟩
  · nomatch congrArg Prod.fst h

/-! ### Reading what has arrived -/

/-- Unless the reader meets the end of what has arrived, it does the same whatever comes behind. -/
def Incremental (eof : ε) (m : Reader β ε α) : Prop :=
  ∀ s t, (m.exec s).1 = .error eof ∨ m.exec (s ++ t) = ((m.exec s).1, (m.exec s).2 ++ t)

namespace Incremental

variable {eof : ε}

theorem pure (a : α) : Incremental eof (Pure.pure a : Reader β ε α) :=
  fun _ _ => Or.inr rfl

theorem throw (e : ε) : Incremental eof (MonadExcept.throw e : Reader β ε α) :=
  fun _ _ => Or.inr rfl

theorem readExactly (n : ℕ) : Incremental eof (Reader.readExactly eof n : Reader β ε (List β)) := by
  intro s t
  rw [exec_readExactly, exec_readExactly]
  split_ifs with hs hst
  · rw [List.take_append_of_le_length hs, List.drop_append_of_le_length hs]
    exact Or.inr rfl
  · rw [List.length_append] at hst
    omega
  · exact Or.inl rfl
  · exact Or.inl rfl

theorem bind {m : Reader β ε α} {f : α → Reader β ε γ} (hm : Incremental eof m)
    (hf : ∀ a, Incremental eof (f a)) : Incremental eof (m >>= f) := by
  intro s t
  rw [exec_bind, exec_bind]
  rcases hm s t with heof | hsame
  · left
    rcases hexec : m.exec s with ⟨r, s'⟩
    rw [hexec] at heof
    obtain rfl : r = .error eof := heof
    rfl
  · rcases hexec : m.exec s with ⟨r, s'⟩
    rw [hsame, hexec]
    cases r with
    | error e => exact Or.inr rfl
    | ok a => exact hf a s' t

theorem ite {c : Prop} [Decidable c] {m m' : Reader β ε α} (hm : Incremental eof m)
    (hm' : Incremental eof m') : Incremental eof (if c then m else m') := by
  split_ifs
  · exact hm
  · exact hm'

/-- What a reader does on a whole stream, when what has arrived is the beginning of it. -/
theorem of_append {m : Reader β ε α} (h : Incremental eof m) {s t rest : List β} {a : α}
    (hexec : m.exec (s ++ t) = (.ok a, rest)) :
    (m.exec s).1 = .error eof ∨ ∃ s', m.exec s = (.ok a, s') ∧ s' ++ t = rest := by
  refine (h s t).imp_right fun hsame => ?_
  obtain ⟨hout, hrest⟩ := Prod.mk.inj (hsame.symm.trans hexec)
  exact ⟨(m.exec s).2, Prod.ext hout rfl, hrest⟩

end Incremental

end Reader
