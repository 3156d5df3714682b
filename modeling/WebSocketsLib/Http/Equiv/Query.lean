import WebSocketsLib.Http.Equiv.Request
import WebSocketsLib.Lib.SortedMap
import Mathlib.Data.List.Lex

/-!
# Query strings

`splitTarget_query`: the pairs of a query string are read back, and the values of a key come in the
order of its occurrences.

The parameters are an ordered multimap, in which a new entry is put behind those of the same key
(`foldl_emplaceParam`).
-/

namespace WebSocketsLib

open SortedMap

variable {pairs : List (Bytes × Bytes)} {path : Bytes}

/-- **The order of `std::string`** is a strict total order. -/
instance bytesOrder : IsStrictTotalOrder Bytes fun a b => decide (a < b) = true where
  irrefl a := by
    rw [decide_eq_true_eq]
    exact List.lt_irrefl a
  trans a b c hab hbc := by
    rw [decide_eq_true_eq] at hab hbc ⊢
    exact List.lt_trans hab hbc
  trichotomous a b hab hba := by
    rw [decide_eq_true_eq] at hab hba
    exact Std.Trichotomous.trichotomous a b hab hba

/-- A pair as it is written in a query. -/
def pairText (e : Bytes × Bytes) : Bytes :=
  e.1 ++ 0x3D :: e.2

/-- A path with a query. -/
def queryTarget (path : Bytes) (pairs : List (Bytes × Bytes)) : Bytes :=
  path ++ 0x3F :: [0x26].intercalate (pairs.map pairText)

/-- Keys and values that can be written in a query. -/
def IsQuery (pairs : List (Bytes × Bytes)) : Prop :=
  ∀ e ∈ pairs, (0x26 ∉ e.1 ∧ 0x3D ∉ e.1) ∧ 0x26 ∉ e.2

instance (pairs : List (Bytes × Bytes)) : Decidable (IsQuery pairs) :=
  inferInstanceAs (Decidable (∀ e ∈ pairs, (0x26 ∉ e.1 ∧ 0x3D ∉ e.1) ∧ 0x26 ∉ e.2))

/-! ### Splitting -/

/-- The piece of a pair enters it. -/
theorem emplaceParam_pairText {e : Bytes × Bytes} (he : 0x3D ∉ e.1) (params : Params) :
    emplaceParam params (pairText e)
      = insertLast (fun a b => decide (a < b)) params e.1 e.2 := by
  have hne : pairText e ≠ [] := by
    rw [pairText, ne_eq, List.append_eq_nil_iff, not_and]
    exact fun _ => List.cons_ne_nil _ _
  have hvalue : (e.1 ++ 0x3D :: e.2).drop (e.1.length + 1) = e.2 := by
    rw [List.append_cons, List.drop_left' (by simp)]
  rw [emplaceParam, if_neg hne, pairText, idxOf?_append_cons he]
  dsimp only
  rw [List.take_left, hvalue]
  rfl

/-- **The parameters** are the multimap of the pairs. -/
theorem foldl_emplaceParam (h : IsQuery pairs) :
    (([0x26].intercalate (pairs.map pairText)).splitOn 0x26).foldl emplaceParam []
      = pairs.foldl (fun l e => insertLast (fun a b => decide (a < b)) l e.1 e.2) [] := by
  have hfold : ∀ (es : List (Bytes × Bytes)) (params : Params), (∀ e ∈ es, e ∈ pairs) →
      (es.map pairText).foldl emplaceParam params
        = es.foldl (fun l e => insertLast (fun a b => decide (a < b)) l e.1 e.2) params := by
    intro es
    induction es with
    | nil => exact fun _ _ => rfl
    | cons e es ih =>
      intro params hes
      obtain ⟨he, hes⟩ := List.forall_mem_cons.mp hes
      rw [List.map_cons, List.foldl_cons, List.foldl_cons, emplaceParam_pairText (h e he).1.2]
      exact ih _ hes
  cases hpairs : pairs with
  | nil => rfl
  | cons e es =>
    have hsep : ∀ w ∈ (e :: es).map pairText, 0x26 ∉ w := by
      intro w hw
      obtain ⟨e', he', rfl⟩ := List.mem_map.mp hw
      obtain ⟨⟨hkey, -⟩, hvalue⟩ := h e' (hpairs ▸ he')
      rw [pairText, List.mem_append, List.mem_cons, not_or, not_or]
      exact ⟨hkey, by decide, hvalue⟩
    rw [List.splitOn_intercalate 0x26 hsep (List.cons_ne_nil _ _), ← hpairs]
    exact hfold pairs [] fun _ he => he

theorem splitTarget_queryTarget (hpath : 0x3F ∉ path) (pairs : List (Bytes × Bytes)) :
    splitTarget (queryTarget path pairs) = (path,
      (([0x26].intercalate (pairs.map pairText)).splitOn 0x26).foldl emplaceParam []) := by
  have hquery : (path ++ 0x3F :: [0x26].intercalate (pairs.map pairText)).drop (path.length + 1)
      = [0x26].intercalate (pairs.map pairText) := by
    rw [List.append_cons, List.drop_left' (by simp)]
  rw [splitTarget, queryTarget, idxOf?_append_cons hpath]
  dsimp only
  rw [List.take_left, hquery]

/-! ### The values of a key -/

/-- **Query strings round-trip**, and keep the values of a key in their order. -/
theorem splitTarget_query {path : Bytes} (hpath : 0x3F ∉ path) {pairs : List (Bytes × Bytes)}
    (hpairs : IsQuery pairs) :
    (splitTarget (queryTarget path pairs)).1 = path ∧
      (splitTarget (queryTarget path pairs)).2.Perm pairs ∧
      ∀ r : Request, r.queryParams = (splitTarget (queryTarget path pairs)).2 → ∀ key,
        r.getParamValueCount key = (pairs.filter fun e => decide (e.1 = key)).length ∧
        (r.hasParam key = true ↔ ∃ e ∈ pairs, e.1 = key) ∧
        ∀ id, r.getParamValue key id
          = (((pairs.filter fun e => decide (e.1 = key)).map Prod.snd)[id]?).getD [] := by
  rw [splitTarget_queryTarget hpath, foldl_emplaceParam hpairs]
  refine ⟨rfl, perm_foldl_insertLast pairs, fun r hr key => ?_⟩
  obtain ⟨hsorted, hfilter⟩ := filter_foldl_insertLast (r := fun a b => decide (a < b)) pairs key
  have hrange : r.queryParams.equalRange key = pairs.filter fun e => decide (e.1 = key) := by
    rw [hr, ← hfilter]
    exact equalRange_eq_filter hsorted key
  refine ⟨?_, ?_, fun id => ?_⟩
  · rw [Request.getParamValueCount, hrange]
  · rw [Request.hasParam, hrange, Bool.not_eq_true', List.isEmpty_eq_false_iff,
      ne_eq, List.filter_eq_nil_iff]
    simp
  · rw [Request.getParamValue, hrange, List.getElem?_map]

/-- A repeated key, an empty one, and a value with a separator in it. -/
def repeatedKey : List (Bytes × Bytes) :=
  [(bytes "a", bytes "1"), (bytes "", bytes "x=y"), (bytes "a", bytes "")]

theorem splitTarget_query_repeatedKey :
    queryTarget (bytes "/p") repeatedKey = bytes "/p?a=1&=x=y&a=" ∧
      (splitTarget (queryTarget (bytes "/p") repeatedKey)).2.Perm repeatedKey :=
  ⟨by decide, (splitTarget_query (by decide) (by decide)).2.1⟩

end WebSocketsLib
