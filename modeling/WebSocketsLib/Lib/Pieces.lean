import Mathlib.Data.List.Basic

/-!
# Pieces of a list between separators

`pieces sep xs` are the maximal runs of `xs` without `sep`: empty pieces are dropped.

* `pieces_append_cons`: a separator splits the pieces.
* `pieces_intercalate`: the pieces of names joined with the separator are the names.
* `prefix_intercalate`: a prefix of joined names that does not end with a separator is some of the
  names, the last of them perhaps cut off.
-/

namespace Pieces

variable {α : Type*} {sep : α}

/-! ### Joined names -/

/-- **A prefix of joined names** that does not end with a separator. -/
theorem prefix_intercalate {ws : List (List α)} {r : List α} (h : r <+: [sep].intercalate ws)
    (hne : r ≠ []) (hlast : r.getLast? ≠ some sep) :
    ∃ dir name ext rest, name ≠ [] ∧ ws = dir ++ (name ++ ext) :: rest ∧
      r = [sep].intercalate (dir ++ [name]) := by
  induction ws generalizing r with
  | nil => exact absurd (List.prefix_nil.mp h) hne
  | cons w ws ih =>
    -- the case of a prefix of the first name
    have hfirst : r <+: w → ∃ dir name ext rest, name ≠ [] ∧
        w :: ws = dir ++ (name ++ ext) :: rest ∧ r = [sep].intercalate (dir ++ [name]) := by
      rintro ⟨ext, rfl⟩
      exact ⟨[], r, ext, ws, hne, rfl, List.intercalate_singleton.symm⟩
    cases ws with
    | nil => exact hfirst (by rwa [List.intercalate_singleton] at h)
    | cons v ws =>
      rw [List.intercalate_cons_cons] at h
      rcases List.prefix_or_prefix_of_prefix h (List.prefix_append (w ++ [sep]) _) with hr | hr
      · rcases List.prefix_concat_iff.mp hr with rfl | hr
        · exact absurd List.getLast?_concat hlast
        · exact hfirst hr
      · obtain ⟨r', rfl⟩ := hr
        have hne' : r' ≠ [] := by
          rintro rfl
          rw [List.append_nil] at hlast
          exact hlast List.getLast?_concat
        rw [List.getLast?_append_of_ne_nil _ hne'] at hlast
        obtain ⟨dir, name, ext, rest, hname, heq, hr'⟩ :=
          ih ((List.prefix_append_right_inj _).mp h) hne' hlast
        refine ⟨w :: dir, name, ext, rest, hname, by rw [heq]; rfl, ?_⟩
        rw [hr', List.cons_append, List.intercalate_cons_of_ne_nil (by simp)]

/-- Cutting the last name off leaves a prefix. -/
theorem intercalate_cut (dir : List (List α)) (name ext : List α) (rest : List (List α)) :
    [sep].intercalate (dir ++ [name]) <+: [sep].intercalate (dir ++ (name ++ ext) :: rest) := by
  induction dir with
  | nil =>
    rw [List.nil_append, List.intercalate_singleton, List.nil_append]
    cases rest with
    | nil =>
      rw [List.intercalate_singleton]
      exact List.prefix_append name ext
    | cons v rest =>
      rw [List.intercalate_cons_cons, List.append_assoc, List.append_assoc]
      exact List.prefix_append name _
  | cons d dir ih =>
    rw [List.cons_append, List.cons_append, List.intercalate_cons_of_ne_nil (by simp),
      List.intercalate_cons_of_ne_nil (by simp)]
    exact (List.prefix_append_right_inj _).mpr ih

/-- Joined names begin longer ones, also with the separator in between. -/
theorem prefix_intercalate_append {slash : List α} (us : List (List α)) {vs : List (List α)}
    (hvs : vs ≠ []) (hslash : slash = [] ∨ us ≠ [] ∧ slash = [sep]) :
    [sep].intercalate us ++ slash <+: [sep].intercalate (us ++ vs) := by
  induction us with
  | nil =>
    obtain rfl : slash = [] := hslash.resolve_right fun h => h.1 rfl
    exact List.nil_prefix
  | cons u us ih =>
    cases us with
    | nil =>
      rw [List.intercalate_singleton, List.singleton_append, List.intercalate_cons_of_ne_nil hvs,
        List.append_assoc, List.prefix_append_right_inj]
      rcases hslash with rfl | ⟨-, rfl⟩
      · exact List.nil_prefix
      · exact List.prefix_append _ _
    | cons u' us =>
      have hus : u' :: us ++ vs ≠ [] := List.cons_ne_nil u' (us ++ vs)
      rw [List.cons_append, List.intercalate_cons_of_ne_nil (List.cons_ne_nil u' us),
        List.intercalate_cons_of_ne_nil hus, List.append_assoc, List.prefix_append_right_inj]
      exact ih (hslash.imp_right fun h => ⟨List.cons_ne_nil u' us, h.2⟩)

/-! ### `pieces` -/

variable [DecidableEq α]

def pieces (sep : α) (xs : List α) : List (List α) :=
  (xs.splitOn sep).filter fun w => !w.isEmpty

/-- A piece: not empty, and without the separator. -/
structure IsName (sep : α) (w : List α) : Prop where
  ne_nil : w ≠ []
  not_mem : sep ∉ w

@[simp]
theorem pieces_nil : pieces sep [] = [] := by
  rw [pieces, List.splitOn_nil]
  rfl

/-- What does not start with a separator has a piece. -/
theorem pieces_cons_ne_nil {x : α} (hx : x ≠ sep) (xs : List α) : pieces sep (x :: xs) ≠ [] := by
  obtain ⟨w, ws, heq⟩ := List.exists_cons_of_ne_nil (List.splitOn_ne_nil sep xs)
  rw [pieces, List.splitOn_cons_eq_if_modifyHead, if_neg (by simpa using hx), heq,
    List.modifyHead_cons, List.filter_cons_of_pos rfl]
  exact List.cons_ne_nil _ _

/-- **A separator** splits the pieces. -/
theorem pieces_append_cons (xs ys : List α) :
    pieces sep (xs ++ sep :: ys) = pieces sep xs ++ pieces sep ys := by
  rw [pieces, List.splitOn_append_cons_self, List.filter_append]
  rfl

@[simp]
theorem pieces_cons_self (xs : List α) : pieces sep (sep :: xs) = pieces sep xs :=
  pieces_append_cons [] xs

theorem pieces_concat_self (xs : List α) : pieces sep (xs ++ [sep]) = pieces sep xs := by
  rw [pieces_append_cons, pieces_nil, List.append_nil]

theorem not_mem_of_mem_splitOn {xs w : List α} (h : w ∈ xs.splitOn sep) : sep ∉ w := by
  induction xs generalizing w with
  | nil =>
    rw [List.splitOn_nil, List.mem_singleton] at h
    rw [h]
    exact List.not_mem_nil
  | cons x xs ih =>
    rw [List.splitOn_cons_eq_if_modifyHead] at h
    split_ifs at h with hx
    · rcases List.mem_cons.mp h with rfl | h
      · exact List.not_mem_nil
      · exact ih h
    · obtain ⟨v, vs, heq⟩ := List.exists_cons_of_ne_nil (List.splitOn_ne_nil sep xs)
      rw [heq, List.modifyHead_cons, List.mem_cons] at h
      rw [heq] at ih
      rcases h with rfl | h
      · have hne : sep ≠ x := fun hs => hx (by rw [hs]; exact beq_self_eq_true x)
        exact List.not_mem_cons_of_ne_of_not_mem hne (ih List.mem_cons_self)
      · exact ih (List.mem_cons_of_mem _ h)

theorem subset_of_mem_splitOn {xs w : List α} (h : w ∈ xs.splitOn sep) : w ⊆ xs := by
  induction xs generalizing w with
  | nil =>
    rw [List.splitOn_nil, List.mem_singleton] at h
    rw [h]
    exact List.nil_subset _
  | cons x xs ih =>
    rw [List.splitOn_cons_eq_if_modifyHead] at h
    split_ifs at h with hx
    · rcases List.mem_cons.mp h with rfl | h
      · exact List.nil_subset _
      · exact List.Subset.trans (ih h) (List.subset_cons_self x xs)
    · obtain ⟨v, vs, heq⟩ := List.exists_cons_of_ne_nil (List.splitOn_ne_nil sep xs)
      rw [heq, List.modifyHead_cons, List.mem_cons] at h
      rw [heq] at ih
      rcases h with rfl | h
      · exact List.cons_subset_cons x (ih List.mem_cons_self)
      · exact List.Subset.trans (ih (List.mem_cons_of_mem _ h)) (List.subset_cons_self x xs)

theorem isName_of_mem_pieces {xs w : List α} (h : w ∈ pieces sep xs) : IsName sep w := by
  obtain ⟨hmem, hne⟩ := List.mem_filter.mp h
  exact ⟨by simpa using hne, not_mem_of_mem_splitOn hmem⟩

/-- **Joined names** have the names as their pieces. -/
theorem pieces_intercalate {ws : List (List α)} (h : ∀ w ∈ ws, IsName sep w) :
    pieces sep ([sep].intercalate ws) = ws := by
  cases ws with
  | nil => exact pieces_nil
  | cons w ws =>
    rw [pieces, List.splitOn_intercalate sep (fun v hv => (h v hv).not_mem) (List.cons_ne_nil w ws)]
    refine List.filter_eq_self.mpr fun v hv => ?_
    simpa using (h v hv).ne_nil

end Pieces
