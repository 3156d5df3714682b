import Mathlib.Data.List.TakeWhile
import Mathlib.Order.RelClasses
import Mathlib.Tactic.Common

/-!
# Ordered maps and multimaps as sorted lists

The entries of an ordered map are a list of pairs whose keys ascend strictly in an order `r`, given
as a Boolean comparison; those of an ordered multimap a list whose keys do not descend.

* `lookup_foldl_insertNew`: in a map whose insertions keep what is there, a key has the value of its
  first insertion.
* `eq_of_lookup_eq`: a map is what its keys look up.
* `find?_eq_some_iff`: the first entry with a property is the least one.
* `filter_foldl_insertLast`, `perm_foldl_insertLast`: a multimap holds what was inserted, and the
  entries of one key in the order of their insertions.
* `equalRange_eq_filter`: the range of a key in a multimap.
-/

namespace SortedMap

variable {α β : Type*} {r : α → α → Bool} {l : List (α × β)} {e : α × β}

/-- The keys of a map: they ascend. -/
def Ascending (r : α → α → Bool) (l : List (α × β)) : Prop :=
  l.Pairwise fun a b => r a.1 b.1 = true

/-- The keys of a multimap: they do not descend. -/
def NonDescending (r : α → α → Bool) (l : List (α × β)) : Prop :=
  l.Pairwise fun a b => r b.1 a.1 = false

/-- Inserting into a map; a key that is there already keeps its value. -/
def insertNew [DecidableEq α] (r : α → α → Bool) (l : List (α × β)) (key : α) (value : β) :
    List (α × β) :=
  let before := l.takeWhile fun e => r e.1 key
  let after := l.dropWhile fun e => r e.1 key
  if (after.head?.map Prod.fst) = some key then l else before ++ (key, value) :: after

/-- Inserting into a multimap, behind the entries whose key is not greater. -/
def insertLast (r : α → α → Bool) (l : List (α × β)) (key : α) (value : β) : List (α × β) :=
  l.takeWhile (fun e => !r key e.1) ++ (key, value) :: l.dropWhile fun e => !r key e.1

/-- The entries of a multimap from the first whose key is not less to the first whose key is
greater. -/
def equalRange (r : α → α → Bool) (l : List (α × β)) (key : α) : List (α × β) :=
  (l.dropWhile fun e => r e.1 key).takeWhile fun e => !r key e.1

variable [IsStrictTotalOrder α fun a b => r a b = true]

omit [IsStrictTotalOrder α fun a b => r a b = true] in
/-- What `dropWhile` leaves starts with an entry that fails the test. -/
theorem head_dropWhile {p : α × β → Bool} (h : (l.dropWhile p).head? = some e) : p e = false := by
  have hhead := List.head?_dropWhile_not p l
  rw [h] at hhead
  simpa using hhead

omit [IsStrictTotalOrder α fun a b => r a b = true] in
/-- **What `dropWhile` leaves of a sorted list**: a property that goes on from an entry to those
behind it holds of all if it holds of the first. -/
theorem forall_mem_dropWhile {rel : α × β → α × β → Prop} {holds : α × β → Prop}
    {p : α × β → Bool} (hl : l.Pairwise rel)
    (hfirst : ∀ first, (l.dropWhile p).head? = some first → holds first)
    (hnext : ∀ a b, holds a → rel a b → holds b) : ∀ e ∈ l.dropWhile p, holds e := by
  have hsorted : (l.dropWhile p).Pairwise rel := hl.sublist (List.dropWhile_sublist _)
  intro e he
  cases hrest : l.dropWhile p with
  | nil =>
    rw [hrest] at he
    exact absurd he List.not_mem_nil
  | cons first rest =>
    rw [hrest] at he hsorted hfirst
    have hholds : holds first := hfirst first List.head?_cons
    rcases List.mem_cons.mp he with rfl | he
    · exact hholds
    · exact hnext first e hholds (List.rel_of_pairwise_cons hsorted he)

theorem r_irrefl (r : α → α → Bool) [IsStrictTotalOrder α fun a b => r a b = true] (a : α) :
    r a a = false :=
  Bool.eq_false_iff.mpr (irrefl_of (fun a b => r a b = true) a)

theorem r_trans {a b c : α} (hab : r a b = true) (hbc : r b c = true) : r a c = true :=
  trans_of (fun a b => r a b = true) hab hbc

theorem eq_of_not_r {a b : α} (hab : r a b = false) (hba : r b a = false) : a = b := by
  rcases trichotomous_of (fun a b => r a b = true) a b with h | h | h
  · rw [hab] at h
    cases h
  · exact h
  · rw [hba] at h
    cases h

theorem not_r_of_r {a b : α} (hab : r a b = true) : r b a = false := by
  by_contra hba
  rw [Bool.not_eq_false] at hba
  have haa := r_trans hab hba
  rw [r_irrefl r] at haa
  cases haa

theorem ne_of_r {a b : α} (hab : r a b = true) : a ≠ b := by
  rintro rfl
  rw [r_irrefl r] at hab
  cases hab

/-- What is less than something that is not greater. -/
theorem r_of_r_of_not_r {a b c : α} (hab : r a b = true) (hcb : r c b = false) : r a c = true := by
  cases hbc : r b c with
  | true => exact r_trans hab hbc
  | false => rwa [← eq_of_not_r hbc hcb]

/-! ### Maps -/

/-- What is behind the place of a new key has greater keys. -/
theorem r_of_mem_dropWhile {key : α} (hl : Ascending r l)
    (hno : ((l.dropWhile fun e => r e.1 key).head?.map Prod.fst) ≠ some key) :
    ∀ e ∈ l.dropWhile fun e => r e.1 key, r key e.1 = true := by
  refine forall_mem_dropWhile hl (fun first hfirst => ?_) fun a b ha hab => r_trans ha hab
  rw [hfirst, Option.map_some, ne_eq, Option.some_inj] at hno
  by_contra hkey
  rw [Bool.not_eq_true] at hkey
  exact hno (eq_of_not_r (head_dropWhile hfirst) hkey)

variable [DecidableEq α]

/-- **Inserting keeps a map a map.** -/
theorem Ascending.insertNew (hl : Ascending r l) (key : α) (value : β) :
    Ascending r (insertNew r l key value) := by
  rw [SortedMap.insertNew]
  split_ifs with hkey
  · exact hl
  · have hbefore : ∀ e ∈ l.takeWhile fun e => r e.1 key, r e.1 key = true := fun e he =>
      List.mem_takeWhile_imp (p := fun e : α × β => r e.1 key) he
    have hafter : ∀ e ∈ l.dropWhile fun e => r e.1 key, r key e.1 = true :=
      r_of_mem_dropWhile hl hkey
    refine List.pairwise_append.mpr ⟨?_, ?_, ?_⟩
    · exact List.Pairwise.sublist (List.takeWhile_sublist _) hl
    · exact List.pairwise_cons.mpr
        ⟨hafter, List.Pairwise.sublist (List.dropWhile_sublist _) hl⟩
    · intro a ha b hb
      rcases List.mem_cons.mp hb with rfl | hb
      · exact hbefore a ha
      · exact r_trans (hbefore a ha) (hafter b hb)

section Lookup

variable [BEq α] [LawfulBEq α]

omit [DecidableEq α] in
/-- The entries of a map are what its keys look up. -/
theorem mem_iff_lookup {key : α} {value : β} (hl : Ascending r l) :
    (key, value) ∈ l ↔ l.lookup key = some value := by
  induction l with
  | nil => simp
  | cons first rest ih =>
    obtain ⟨hfirst, hrest⟩ := List.pairwise_cons.mp hl
    obtain ⟨k, v⟩ := first
    rw [List.lookup_cons, List.mem_cons, ih hrest, Prod.mk.injEq]
    by_cases hk : key = k
    · subst hk
      have hnone : rest.lookup key ≠ some value := by
        intro h
        exact ne_of_r (hfirst _ ((ih hrest).mpr h)) rfl
      simp [hnone, eq_comm]
    · simp [hk, beq_eq_false_iff_ne.mpr hk]

omit [DecidableEq α] in
/-- **A map is what its keys look up.** -/
theorem eq_of_lookup_eq {l' : List (α × β)} (hl : Ascending r l) (hl' : Ascending r l')
    (h : ∀ key, l.lookup key = l'.lookup key) : l = l' := by
  have hnodup : ∀ l : List (α × β), Ascending r l → l.Nodup := by
    intro l hl
    refine hl.imp fun {a b} hab => ?_
    rintro rfl
    exact ne_of_r hab rfl
  have hperm : l.Perm l' := by
    refine (List.perm_ext_iff_of_nodup (hnodup l hl) (hnodup l' hl')).mpr ?_
    rintro ⟨key, value⟩
    rw [mem_iff_lookup hl, mem_iff_lookup hl', h]
  refine List.Perm.eq_of_pairwise (fun a b _ _ hab hba => ?_) hl hl' hperm
  rw [not_r_of_r hab] at hba
  cases hba

omit [IsStrictTotalOrder α fun a b => r a b = true] [DecidableEq α] in
theorem lookup_eq_none_of_forall_ne {key : α} (h : ∀ e ∈ l, e.1 ≠ key) : l.lookup key = none := by
  rw [List.lookup_eq_none_iff]
  intro e he
  simpa using (h e he).symm

/-- **The values after an insertion**: the new key has its value unless it had one before. -/
theorem lookup_insertNew (hl : Ascending r l) (key k : α) (value : β) :
    (insertNew r l key value).lookup k
      = (l.lookup k).or (if k = key then some value else none) := by
  have hsplit := List.takeWhile_append_dropWhile (p := fun e => r e.1 key) (l := l)
  rw [SortedMap.insertNew]
  split_ifs with hkey hk hk
  · -- the key is there
    subst hk
    obtain ⟨⟨k', v⟩, hfirst, hk'⟩ := Option.map_eq_some_iff.mp hkey
    obtain rfl : k' = k := hk'
    have hmem : (k', v) ∈ l :=
      (List.dropWhile_sublist _).subset (List.mem_of_mem_head? hfirst)
    rw [(mem_iff_lookup hl).mp hmem]
    rfl
  · rw [Option.or_none]
  · subst hk
    have hbefore : (l.takeWhile fun e => r e.1 k).lookup k = none :=
      lookup_eq_none_of_forall_ne fun e he =>
        ne_of_r (List.mem_takeWhile_imp (p := fun e : α × β => r e.1 k) he)
    have hafter : (l.dropWhile fun e => r e.1 k).lookup k = none :=
      lookup_eq_none_of_forall_ne fun e he => (ne_of_r (r_of_mem_dropWhile hl hkey e he)).symm
    rw [List.lookup_append, hbefore, List.lookup_cons_self]
    conv_rhs => rw [← hsplit, List.lookup_append, hbefore, hafter]
    rfl
  · rw [Option.or_none, List.lookup_append, List.lookup_cons, beq_eq_false_iff_ne.mpr hk]
    dsimp only
    rw [← List.lookup_append, hsplit]

/-- **A map after a list of insertions**: a key has the value of its first insertion. -/
theorem lookup_foldl_insertNew (es : List (α × β)) (k : α) :
    Ascending r (es.foldl (fun l e => insertNew r l e.1 e.2) []) ∧
      (es.foldl (fun l e => insertNew r l e.1 e.2) []).lookup k = es.lookup k := by
  have hfold : ∀ (es l : List (α × β)), Ascending r l →
      Ascending r (es.foldl (fun l e => insertNew r l e.1 e.2) l) ∧
        (es.foldl (fun l e => insertNew r l e.1 e.2) l).lookup k
          = (l.lookup k).or (es.lookup k) := by
    intro es
    induction es with
    | nil => exact fun l hl => ⟨hl, by simp⟩
    | cons e es ih =>
      intro l hl
      obtain ⟨hsorted, hlookup⟩ := ih _ (hl.insertNew e.1 e.2)
      refine ⟨hsorted, ?_⟩
      rw [List.foldl_cons, hlookup, lookup_insertNew hl, Option.or_assoc, List.lookup_cons]
      by_cases hk : k = e.1
      · simp [hk]
      · simp [hk, beq_eq_false_iff_ne.mpr hk]
  obtain ⟨hsorted, hlookup⟩ := hfold es [] List.Pairwise.nil
  exact ⟨hsorted, by simpa using hlookup⟩

end Lookup

omit [DecidableEq α] in
/-- **The first entry of a map with a property** is the least one. -/
theorem find?_eq_some_iff {p : α × β → Bool} (hl : Ascending r l) :
    l.find? p = some e ↔
      e ∈ l ∧ p e = true ∧ ∀ e' ∈ l, p e' = true → e' = e ∨ r e.1 e'.1 = true := by
  induction l with
  | nil => simp
  | cons first rest ih =>
    obtain ⟨hfirst, hrest⟩ := List.pairwise_cons.mp hl
    rw [List.find?_cons]
    cases hp : p first with
    | true =>
      constructor
      · intro h
        obtain rfl := Option.some.inj h
        refine ⟨List.mem_cons_self, hp, fun e' he' _ => ?_⟩
        rcases List.mem_cons.mp he' with rfl | he'
        · exact Or.inl rfl
        · exact Or.inr (hfirst e' he')
      · rintro ⟨he, hpe, hleast⟩
        rcases hleast first List.mem_cons_self hp with rfl | hr
        · rfl
        · rcases List.mem_cons.mp he with rfl | he
          · rfl
          · have hr' := not_r_of_r (hfirst e he)
            rw [hr] at hr'
            cases hr'
    | false =>
      have hne : ∀ e', p e' = true → e' ≠ first := by
        rintro e' hpe rfl
        rw [hp] at hpe
        cases hpe
      dsimp only
      rw [ih hrest]
      constructor
      · rintro ⟨he, hpe, hleast⟩
        refine ⟨List.mem_cons_of_mem _ he, hpe, fun e' he' hpe' => ?_⟩
        exact hleast e' ((List.mem_cons.mp he').resolve_left (hne e' hpe')) hpe'
      · rintro ⟨he, hpe, hleast⟩
        refine ⟨(List.mem_cons.mp he).resolve_left (hne e hpe), hpe, fun e' he' hpe' => ?_⟩
        exact hleast e' (List.mem_cons_of_mem _ he') hpe'

/-! ### Multimaps -/

omit [DecidableEq α] in
/-- What is behind the place of an insertion has greater keys. -/
theorem r_of_mem_dropWhile_not {key : α} (hl : NonDescending r l) :
    ∀ e ∈ l.dropWhile fun e => !r key e.1, r key e.1 = true := by
  refine forall_mem_dropWhile hl (fun first hfirst => ?_) fun a b ha hab => r_of_r_of_not_r ha hab
  simpa using head_dropWhile hfirst

omit [DecidableEq α] in
/-- **Inserting keeps a multimap a multimap.** -/
theorem NonDescending.insertLast (hl : NonDescending r l) (key : α) (value : β) :
    NonDescending r (insertLast r l key value) := by
  have hbefore : ∀ e ∈ l.takeWhile fun e => !r key e.1, r key e.1 = false := by
    intro e he
    simpa using List.mem_takeWhile_imp (p := fun e : α × β => !r key e.1) he
  have hafter : ∀ e ∈ l.dropWhile fun e => !r key e.1, r key e.1 = true :=
    r_of_mem_dropWhile_not hl
  refine List.pairwise_append.mpr ⟨?_, ?_, ?_⟩
  · exact List.Pairwise.sublist (List.takeWhile_sublist _) hl
  · refine List.pairwise_cons.mpr ⟨fun e he => not_r_of_r (hafter e he), ?_⟩
    exact List.Pairwise.sublist (List.dropWhile_sublist _) hl
  · intro a ha b hb
    rcases List.mem_cons.mp hb with rfl | hb
    · exact hbefore a ha
    · by_contra hba
      rw [Bool.not_eq_false] at hba
      have hka := r_trans (hafter b hb) hba
      rw [hbefore a ha] at hka
      cases hka

omit [IsStrictTotalOrder α fun a b => r a b = true] [DecidableEq α] in
theorem perm_insertLast (l : List (α × β)) (key : α) (value : β) :
    (insertLast r l key value).Perm ((key, value) :: l) := by
  refine List.perm_middle.trans (List.Perm.cons _ ?_)
  rw [List.takeWhile_append_dropWhile]

/-- An insertion puts its entry behind the others of its key. -/
theorem filter_insertLast (hl : NonDescending r l) (key k : α) (value : β) :
    (insertLast r l key value).filter (fun e => decide (e.1 = k))
      = l.filter (fun e => decide (e.1 = k)) ++ if key = k then [(key, value)] else [] := by
  conv_rhs => rw [← List.takeWhile_append_dropWhile (p := fun e => !r key e.1) (l := l)]
  rw [SortedMap.insertLast, List.filter_append, List.filter_append, List.filter_cons,
    List.append_assoc]
  refine congrArg (HAppend.hAppend _) ?_
  by_cases hk : key = k
  · subst hk
    have hafter : (l.dropWhile fun e => !r key e.1).filter (fun e => decide (e.1 = key)) = [] := by
      refine List.filter_eq_nil_iff.mpr fun e he => ?_
      rw [decide_eq_true_eq]
      exact (ne_of_r (r_of_mem_dropWhile_not hl e he)).symm
    rw [hafter, if_pos rfl, if_pos (decide_eq_true rfl), List.nil_append]
  · rw [if_neg hk, List.append_nil, if_neg (by simpa using hk)]

/-- **A multimap after a list of insertions.** -/
theorem filter_foldl_insertLast (es : List (α × β)) (k : α) :
    NonDescending r (es.foldl (fun l e => insertLast r l e.1 e.2) []) ∧
      (es.foldl (fun l e => insertLast r l e.1 e.2) []).filter (fun e => decide (e.1 = k))
        = es.filter fun e => decide (e.1 = k) := by
  have hfold : ∀ (es l : List (α × β)), NonDescending r l →
      NonDescending r (es.foldl (fun l e => insertLast r l e.1 e.2) l) ∧
        (es.foldl (fun l e => insertLast r l e.1 e.2) l).filter (fun e => decide (e.1 = k))
          = l.filter (fun e => decide (e.1 = k)) ++ es.filter fun e => decide (e.1 = k) := by
    intro es
    induction es with
    | nil => exact fun l hl => ⟨hl, by simp⟩
    | cons e es ih =>
      intro l hl
      obtain ⟨hsorted, hfilter⟩ := ih _ (hl.insertLast e.1 e.2)
      refine ⟨hsorted, ?_⟩
      rw [List.foldl_cons, hfilter, filter_insertLast hl, List.append_assoc, List.filter_cons]
      by_cases hk : e.1 = k
      · rw [if_pos hk, if_pos (decide_eq_true hk)]
        rfl
      · rw [if_neg hk, if_neg (by simpa using hk)]
        rfl
  exact hfold es [] List.Pairwise.nil

omit [IsStrictTotalOrder α fun a b => r a b = true] [DecidableEq α] in
theorem perm_foldl_insertLast (es : List (α × β)) :
    (es.foldl (fun l e => insertLast r l e.1 e.2) []).Perm es := by
  have hfold : ∀ (es l : List (α × β)),
      (es.foldl (fun l e => insertLast r l e.1 e.2) l).Perm (l ++ es) := by
    intro es
    induction es with
    | nil => exact fun l => by simp
    | cons e es ih =>
      intro l
      refine (ih _).trans ?_
      refine (List.Perm.append_right es (perm_insertLast l e.1 e.2)).trans ?_
      exact List.perm_middle.symm
  exact hfold es []

omit [DecidableEq α] in
/-- From the first entry on whose key is not less, no key is less. -/
theorem not_r_of_mem_dropWhile {key : α} (hl : NonDescending r l) :
    ∀ e ∈ l.dropWhile fun e => r e.1 key, r e.1 key = false := by
  refine forall_mem_dropWhile hl (fun first hfirst => head_dropWhile hfirst) fun a b ha hab => ?_
  by_contra hb
  rw [Bool.not_eq_false] at hb
  rw [r_of_r_of_not_r hb ha] at hab
  cases hab

/-- **The range of a key** are the entries with the key. -/
theorem equalRange_eq_filter (hl : NonDescending r l) (key : α) :
    equalRange r l key = l.filter fun e => decide (e.1 = key) := by
  have hless : (l.takeWhile fun e => r e.1 key).filter (fun e => decide (e.1 = key)) = [] := by
    refine List.filter_eq_nil_iff.mpr fun e he => ?_
    rw [decide_eq_true_eq]
    exact ne_of_r (List.mem_takeWhile_imp (p := fun e : α × β => r e.1 key) he)
  have hfrom : NonDescending r (l.dropWhile fun e => r e.1 key) :=
    List.Pairwise.sublist (List.dropWhile_sublist _) hl
  have hequal : (equalRange r l key).filter (fun e => decide (e.1 = key)) = equalRange r l key := by
    refine List.filter_eq_self.mpr fun e he => decide_eq_true ?_
    have hnot : (!r key e.1) = true :=
      List.mem_takeWhile_imp (p := fun e : α × β => !r key e.1) he
    exact eq_of_not_r (not_r_of_mem_dropWhile hl e ((List.takeWhile_sublist _).subset he))
      (by simpa using hnot)
  have hgreater : ((l.dropWhile fun e => r e.1 key).dropWhile fun e => !r key e.1).filter
      (fun e => decide (e.1 = key)) = [] := by
    refine List.filter_eq_nil_iff.mpr fun e he => ?_
    rw [decide_eq_true_eq]
    exact (ne_of_r (r_of_mem_dropWhile_not hfrom e he)).symm
  calc equalRange r l key
      = (l.takeWhile fun e => r e.1 key).filter (fun e => decide (e.1 = key))
        ++ ((equalRange r l key).filter (fun e => decide (e.1 = key))
          ++ ((l.dropWhile fun e => r e.1 key).dropWhile fun e => !r key e.1).filter
            fun e => decide (e.1 = key)) := by
        rw [hless, hequal, hgreater, List.nil_append, List.append_nil]
    _ = l.filter fun e => decide (e.1 = key) := by
        rw [equalRange, ← List.filter_append, List.takeWhile_append_dropWhile, ← List.filter_append,
          List.takeWhile_append_dropWhile]

end SortedMap
