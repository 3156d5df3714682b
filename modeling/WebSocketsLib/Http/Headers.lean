import WebSocketsLib.Bytes
import Mathlib.Data.List.Nodup

/-!
# Header maps

`Headers` is an `unordered_map` whose keys are compared without case (`CaseInsensitiveHash`,
`CaseInsensitiveEqual`).  The model keeps the entries in a list; the order in which the code
iterates over them is unspecified, so whatever depends on it takes the order as an argument.
-/

namespace WebSocketsLib

/-! ### Characters, in the "C" locale -/

/-- `std::tolower`. -/
def toLower (c : UInt8) : UInt8 :=
  if 0x41 ≤ c ∧ c ≤ 0x5A then c + 0x20 else c

/-- `std::isspace`. -/
def isSpace (c : UInt8) : Bool :=
  c == 0x20 || (0x09 ≤ c && c ≤ 0x0D)

/-- The decimal digits. -/
def isDigit (c : UInt8) : Bool :=
  0x30 ≤ c && c ≤ 0x39

def lower (s : Bytes) : Bytes :=
  s.map toLower

/-- `CaseInsensitiveHash`, over `std::hash`. -/
def caseInsensitiveHash (stdHash : Bytes → UInt64) (s : Bytes) : UInt64 :=
  stdHash (lower s)

/-- `CaseInsensitiveEqual`. -/
def caseInsensitiveEqual (s1 s2 : Bytes) : Bool :=
  s1.length == s2.length && (s1.zip s2).all fun c => toLower c.1 == toLower c.2

theorem caseInsensitiveEqual_iff {s1 s2 : Bytes} :
    caseInsensitiveEqual s1 s2 = true ↔ lower s1 = lower s2 := by
  unfold caseInsensitiveEqual lower
  induction s1 generalizing s2 with
  | nil => cases s2 <;> simp
  | cons a s1 ih =>
    cases s2 with
    | nil => simp
    | cons b s2 =>
      simp only [List.length_cons, List.zip_cons_cons, List.all_cons, List.map_cons,
        List.cons.injEq, ← ih, Bool.and_eq_true, beq_iff_eq, Nat.add_right_cancel_iff]
      tauto

/-! ### The map -/

/-- `Headers`: no two keys are equal up to case. -/
structure Headers where
  entries : List (Bytes × Bytes)
  distinct : (entries.map fun e => lower e.1).Nodup

namespace Headers

def empty : Headers where
  entries := []
  distinct := List.nodup_nil

/-- `find`. -/
def find? (h : Headers) (key : Bytes) : Option Bytes :=
  (h.entries.find? fun e => caseInsensitiveEqual e.1 key).map Prod.snd

/-- `find` in a table with so many buckets: the key is compared with the entries of its bucket. -/
def bucketFind? (stdHash : Bytes → UInt64) (buckets : ℕ) (h : Headers) (key : Bytes) :
    Option Bytes :=
  ((h.entries.filter fun e => decide ((caseInsensitiveHash stdHash e.1).toNat % buckets
    = (caseInsensitiveHash stdHash key).toNat % buckets)).find? fun e =>
      caseInsensitiveEqual e.1 key).map Prod.snd

/-- `contains`. -/
def contains (h : Headers) (key : Bytes) : Bool :=
  h.entries.any fun e => caseInsensitiveEqual e.1 key

/-- The entries with the value of `key` replaced. -/
def replaced (entries : List (Bytes × Bytes)) (key value : Bytes) : List (Bytes × Bytes) :=
  entries.map fun e => if caseInsensitiveEqual e.1 key then (e.1, value) else e

theorem map_lower_replaced (entries : List (Bytes × Bytes)) (key value : Bytes) :
    (replaced entries key value).map (fun e => lower e.1) = entries.map fun e => lower e.1 := by
  rw [replaced, List.map_map]
  refine List.map_congr_left fun e _ => ?_
  simp only [Function.comp_apply]
  split_ifs <;> rfl

theorem nodup_concat {h : Headers} {key : Bytes} (hno : h.contains key = false) (value : Bytes) :
    ((h.entries ++ [(key, value)]).map fun e => lower e.1).Nodup := by
  rw [List.map_append, List.nodup_append]
  refine ⟨h.distinct, List.nodup_singleton _, fun a ha b hb hab => ?_⟩
  obtain ⟨e, he, rfl⟩ := List.mem_map.mp ha
  rw [List.map_singleton, List.mem_singleton] at hb
  rw [contains, List.any_eq_false] at hno
  exact hno e he (caseInsensitiveEqual_iff.mpr (hab.trans hb))

/-- `headers[key] = value`: an existing key keeps its spelling. -/
def set (h : Headers) (key value : Bytes) : Headers :=
  if hkey : h.contains key then
    { entries := replaced h.entries key value
      distinct := by rw [map_lower_replaced]; exact h.distinct }
  else
    { entries := h.entries ++ [(key, value)]
      distinct := nodup_concat (Bool.not_eq_true _ ▸ hkey) value }

end Headers

end WebSocketsLib
