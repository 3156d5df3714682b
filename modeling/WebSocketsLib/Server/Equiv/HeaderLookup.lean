import WebSocketsLib.Server.Equiv.HeadEnd
import Mathlib.Data.List.Dedup

/-!
# Looking up headers

`lastLineWins`: after `parse_http_request` a name has, in any spelling, the value of the last line
in front of the first empty one that has the name, and there is one header for each name.

Names that are equal have the same hash, so that the bucket of a name holds all entries with it
(`bucketFind?_eq_find?`).
-/

namespace WebSocketsLib

variable {lines : List Bytes} {name : Bytes}

/-! ### The hash table -/

theorem caseInsensitiveHash_eq {s1 s2 : Bytes} (h : caseInsensitiveEqual s1 s2 = true)
    (stdHash : Bytes → UInt64) :
    caseInsensitiveHash stdHash s1 = caseInsensitiveHash stdHash s2 :=
  congrArg stdHash (caseInsensitiveEqual_iff.mp h)

/-- **The bucket of a name** holds what is looked for. -/
theorem bucketFind?_eq_find? (stdHash : Bytes → UInt64) (buckets : ℕ) (h : Headers)
    (name : Bytes) : h.bucketFind? stdHash buckets name = h.find? name := by
  rw [Headers.bucketFind?, Headers.find?, List.find?_filter]
  congr 2
  funext e
  cases heq : caseInsensitiveEqual e.1 name with
  | false => simp
  | true => simp [caseInsensitiveHash_eq heq stdHash]

theorem contains_eq_isSome_find? (h : Headers) (name : Bytes) :
    h.contains name = (h.find? name).isSome := by
  rw [Headers.contains, Headers.find?, Option.isSome_map, List.isSome_find?]

/-! ### Names -/

/-- The names of the lines with a colon, in lower case. -/
def lowerNames (lines : List Bytes) : List Bytes :=
  (lines.filterMap lineField).map fun e => lower e.1

/-- **A name has a value** if one of the lines has the name. -/
theorem isSome_lastValue_iff :
    (lastValue lines name).isSome = true ↔ lower name ∈ lowerNames lines := by
  rw [lastValue, Option.isSome_map, List.isSome_find?, List.any_reverse, List.any_eq_true,
    lowerNames, List.mem_map]
  simp only [caseInsensitiveEqual_iff]

/-! ### Lines -/

/-- The line has a colon, with the name in front of the first one and the value behind it. -/
def HasField (line key value : Bytes) : Prop :=
  ∃ front back, line = front ++ 0x3A :: back ∧ 0x3A ∉ front ∧ TrimsTo front key ∧
    TrimsTo back value

theorem lineField_append_cons {front : Bytes} (hcolon : 0x3A ∉ front) (back : Bytes) :
    lineField (front ++ 0x3A :: back) = some (trim front, trim back) := by
  rw [lineField, idxOf?_append_cons hcolon, Option.map_some, List.take_left, ← List.drop_drop,
    List.drop_left]
  rfl

theorem lineField_eq_some_iff {line key value : Bytes} :
    lineField line = some (key, value) ↔ HasField line key value := by
  constructor
  · intro h
    have hmem : 0x3A ∈ line := by
      by_contra hno
      rw [lineField, List.idxOf?_eq_none_iff.mpr hno] at h
      cases h
    obtain ⟨front, back, rfl, hcolon⟩ := List.eq_append_cons_of_mem hmem
    rw [lineField_append_cons hcolon] at h
    obtain ⟨rfl, rfl⟩ := Prod.mk.inj (Option.some.inj h)
    exact ⟨front, back, rfl, hcolon, trimsTo_trim front, trimsTo_trim back⟩
  · rintro ⟨front, back, rfl, hcolon, hkey, hvalue⟩
    rw [lineField_append_cons hcolon, trimsTo_iff.mp hkey, trimsTo_iff.mp hvalue]

theorem lastValue_eq_none_iff : lastValue lines name = none ↔
    ∀ line ∈ lines, ∀ key value, HasField line key value → lower key ≠ lower name := by
  rw [← Option.not_isSome_iff_eq_none, isSome_lastValue_iff, lowerNames, List.mem_map]
  simp only [List.mem_filterMap, not_exists, not_and, ← lineField_eq_some_iff]
  constructor
  · exact fun h line hline key value hfield => h (key, value) ⟨line, hline, hfield⟩
  · rintro h field ⟨line, hline, hfield⟩
    exact h line hline field.1 field.2 hfield

/-- **The last line** that has the name. -/
theorem lastValue_eq_some_iff {v : Bytes} : lastValue lines name = some v ↔
    ∃ before line after key, lines = before ++ line :: after ∧ HasField line key v ∧
      lower key = lower name ∧
      ∀ line' ∈ after, ∀ key' v', HasField line' key' v' → lower key' ≠ lower name := by
  constructor
  · -- a later line with the name wins over the first line
    intro h
    induction lines with
    | nil => cases h
    | cons line lines ih =>
      rw [lastValue_cons] at h
      cases hlast : lastValue lines name with
      | some w =>
        rw [hlast, Option.some_or] at h
        obtain ⟨before, line', after, key, heq, hfield⟩ := ih (hlast.trans h)
        exact ⟨line :: before, line', after, key, by rw [heq, List.cons_append], hfield⟩
      | none =>
        rw [hlast, Option.none_or, lastValue] at h
        obtain ⟨field, hfind, rfl⟩ := Option.map_eq_some_iff.mp h
        obtain ⟨line', hline', hfield⟩ := List.mem_filterMap.mp
          (List.mem_reverse.mp (List.mem_of_find?_eq_some hfind))
        obtain rfl := List.mem_singleton.mp hline'
        have hname : caseInsensitiveEqual field.1 name = true :=
          List.find?_some (p := fun e : Bytes × Bytes => caseInsensitiveEqual e.1 name) hfind
        exact ⟨[], line', lines, field.1, rfl, lineField_eq_some_iff.mp hfield,
          caseInsensitiveEqual_iff.mp hname, lastValue_eq_none_iff.mp hlast⟩
  · rintro ⟨before, line, after, key, rfl, hfield, hname, hafter⟩
    have hline : lastValue [line] name = some v := by
      rw [lastValue, List.filterMap_cons_some (lineField_eq_some_iff.mpr hfield)]
      simp [caseInsensitiveEqual_iff.mpr hname]
    rw [lastValue_append, lastValue_cons, lastValue_eq_none_iff.mpr hafter, Option.none_or, hline,
      Option.some_or]

/-! ### The headers that are stored -/

/-- The entries that a table has, by their names in lower case. -/
theorem mem_lower_entries {h : Headers} :
    lower name ∈ h.entries.map (fun e => lower e.1) ↔ (h.find? name).isSome = true := by
  rw [← contains_eq_isSome_find?, Headers.contains, List.any_eq_true, List.mem_map]
  simp only [caseInsensitiveEqual_iff]

/-- **There is one header for each name.** -/
theorem perm_lower_entries (data : Bytes) :
    ((parseHttpRequest data).headers.entries.map fun e => lower e.1).Perm
      (lowerNames (linesBefore data)).dedup := by
  have hname : ∀ name, lower name ∈ (parseHttpRequest data).headers.entries.map
      (fun e => lower e.1) ↔ lower name ∈ (lowerNames (linesBefore data)).dedup := by
    intro name
    rw [mem_lower_entries, find?_parseHttpRequest, isSome_lastValue_iff, List.mem_dedup]
  refine (List.perm_ext_iff_of_nodup (parseHttpRequest data).headers.distinct
    (List.nodup_dedup _)).mpr fun w => ?_
  constructor
  · intro hw
    obtain ⟨e, -, rfl⟩ := List.mem_map.mp hw
    exact (hname e.1).mp hw
  · intro hw
    obtain ⟨field, -, rfl⟩ := List.mem_map.mp (List.mem_dedup.mp hw)
    exact (hname field.1).mpr hw

/-- **Lookup is without case and the last line wins.**  The lines are those between the request
line and the first empty one. -/
theorem lastLineWins (data name : Bytes) :
    (parseHttpRequest data).getHeaderValue name = (lastValue (linesBefore data) name).getD [] ∧
      (∀ stdHash buckets, (parseHttpRequest data).headers.bucketFind? stdHash buckets name
        = lastValue (linesBefore data) name) ∧
      (∀ v, lastValue (linesBefore data) name = some v ↔
        ∃ before line after key, linesBefore data = before ++ line :: after ∧
          HasField line key v ∧ lower key = lower name ∧
          ∀ line' ∈ after, ∀ key' v', HasField line' key' v' → lower key' ≠ lower name) ∧
      ((parseHttpRequest data).hasHeader name = true ↔
        ∃ line ∈ linesBefore data, ∃ key v, HasField line key v ∧ lower key = lower name) ∧
      (parseHttpRequest data).headers.entries.length
        = (lowerNames (linesBefore data)).dedup.length ∧
      ∀ w, w ∈ lowerNames (linesBefore data) ↔
        ∃ line ∈ linesBefore data, ∃ key v, HasField line key v ∧ lower key = w := by
  have hfind := find?_parseHttpRequest data
  have hnames : ∀ w, w ∈ lowerNames (linesBefore data) ↔
      ∃ line ∈ linesBefore data, ∃ key v, HasField line key v ∧ lower key = w := by
    intro w
    simp only [lowerNames, List.mem_map, List.mem_filterMap, ← lineField_eq_some_iff]
    constructor
    · rintro ⟨field, ⟨line, hline, hfield⟩, hname⟩
      exact ⟨line, hline, field.1, field.2, hfield, hname⟩
    · rintro ⟨line, hline, key, v, hfield, hname⟩
      exact ⟨(key, v), ⟨line, hline, hfield⟩, hname⟩
  refine ⟨?_, ?_, fun v => lastValue_eq_some_iff, ?_, ?_, hnames⟩
  · rw [Request.getHeaderValue, Headers.getHeaderValue, hfind]
  · intro stdHash buckets
    rw [bucketFind?_eq_find?, hfind]
  · rw [Request.hasHeader, contains_eq_isSome_find?, hfind, isSome_lastValue_iff]
    exact hnames (lower name)
  · rw [← (perm_lower_entries data).length_eq, List.length_map]

end WebSocketsLib
