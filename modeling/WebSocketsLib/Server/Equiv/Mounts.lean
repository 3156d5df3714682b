import WebSocketsLib.Lib.SortedMap
import WebSocketsLib.Server.Equiv.ServeStatic
import Mathlib.Data.List.Lex

/-!
# The table of mounts

`static_mounts_` is an ordered map whose comparator puts longer prefixes first
(`lookup_mountCalls`), so the first prefix that begins the path is the longest one:
`longest_mount_wins`.
-/

namespace WebSocketsLib

open Fs SortedMap

variable {fs : FileSystem} {mounts : Mounts} {req : Request} {root path urlPrefix : Bytes}
  {calls : List (Bytes × Bytes)}

/-! ### The comparator -/

theorem prefixComparator_of_length_lt {a b : Bytes} (h : b.length < a.length) :
    prefixComparator a b = true := by
  rw [prefixComparator, if_pos (by omega)]
  exact decide_eq_true h

theorem prefixComparator_of_length_eq {a b : Bytes} (h : a.length = b.length) :
    prefixComparator a b = decide (a < b) := by
  rw [prefixComparator, if_neg (not_not_intro h)]

/-- What comes first is not shorter. -/
theorem length_le_of_prefixComparator {a b : Bytes} (h : prefixComparator a b = true) :
    b.length ≤ a.length := by
  rw [prefixComparator] at h
  split_ifs at h with hlen
  · exact Nat.le_of_lt (decide_eq_true_eq.mp h)
  · omega

/-- **`PrefixComparator`** is a strict total order. -/
instance prefixOrder : IsStrictTotalOrder Bytes fun a b => prefixComparator a b = true where
  irrefl a := by
    rw [prefixComparator_of_length_eq rfl, decide_eq_true_eq]
    exact List.lt_irrefl a
  trans a b c hab hbc := by
    have h₁ := length_le_of_prefixComparator hab
    have h₂ := length_le_of_prefixComparator hbc
    by_cases hlen : c.length < a.length
    · exact prefixComparator_of_length_lt hlen
    · rw [prefixComparator_of_length_eq (by omega), decide_eq_true_eq] at hab hbc ⊢
      exact List.lt_trans hab hbc
  trichotomous a b hab hba := by
    rcases Nat.lt_trichotomy a.length b.length with hlen | hlen | hlen
    · exact absurd (prefixComparator_of_length_lt hlen) hba
    · rw [prefixComparator_of_length_eq hlen, decide_eq_true_eq] at hab
      rw [prefixComparator_of_length_eq hlen.symm, decide_eq_true_eq] at hba
      exact Std.Trichotomous.trichotomous a b hab hba
    · exact absurd (prefixComparator_of_length_lt hlen) hab

/-! ### What is registered -/

/-- The root that `MountStatic` stores; `none` when it throws. -/
def storedRoot (fs : FileSystem) (root : Bytes) : Option Bytes :=
  if root ≠ [] ∧ isAbsolute root = false then
    if fs.canonicalError root then none else some (weaklyCanonical fs.cwd root)
  else some root

/-- The prefixes and roots that a list of calls registers, in their order. -/
def registered (fs : FileSystem) (calls : List (Bytes × Bytes)) : List (Bytes × Bytes) :=
  calls.filterMap fun call => (storedRoot fs call.2).map (Prod.mk call.1)

theorem mountStatic_eq :
    mountStatic fs mounts urlPrefix root = (storedRoot fs root).map (mounts.emplace urlPrefix) := by
  rw [mountStatic, storedRoot]
  split_ifs
  · rfl
  · rfl
  · rfl

/-- **The table of mounts** is the map of what is registered. -/
theorem mountCalls_eq (fs : FileSystem) (calls : List (Bytes × Bytes)) (mounts : Mounts) :
    mountCalls fs calls mounts
      = (registered fs calls).foldl (fun l e => insertNew prefixComparator l e.1 e.2) mounts := by
  induction calls generalizing mounts with
  | nil => rfl
  | cons call calls ih =>
    have hstep : mountCalls fs (call :: calls) mounts
        = mountCalls fs calls ((mountStatic fs mounts call.1 call.2).getD mounts) := rfl
    have hregistered : registered fs (call :: calls)
        = ((storedRoot fs call.2).map (Prod.mk call.1)).toList ++ registered fs calls := by
      rw [registered, List.filterMap_cons]
      cases storedRoot fs call.2 with
      | none => rfl
      | some root => rfl
    rw [hstep, ih, mountStatic_eq, hregistered, List.foldl_append]
    cases storedRoot fs call.2 with
    | none => rfl
    | some root => rfl

theorem ascending_mountCalls (fs : FileSystem) (calls : List (Bytes × Bytes)) :
    Ascending prefixComparator (mountCalls fs calls []) := by
  rw [mountCalls_eq]
  exact (lookup_foldl_insertNew (registered fs calls) ([] : Bytes)).1

/-- A prefix has the root of its first registration. -/
theorem lookup_mountCalls (fs : FileSystem) (calls : List (Bytes × Bytes)) (urlPrefix : Bytes) :
    List.lookup urlPrefix (mountCalls fs calls []) = (registered fs calls).lookup urlPrefix := by
  rw [mountCalls_eq]
  exact (lookup_foldl_insertNew (registered fs calls) urlPrefix).2

theorem mem_mountCalls :
    (urlPrefix, root) ∈ mountCalls fs calls [] ↔
      (registered fs calls).lookup urlPrefix = some root := by
  rw [← lookup_mountCalls]
  exact mem_iff_lookup (ascending_mountCalls fs calls)

/-- The first call for the prefix that returns. -/
theorem lookup_registered (fs : FileSystem) (calls : List (Bytes × Bytes)) (urlPrefix : Bytes) :
    (registered fs calls).lookup urlPrefix
      = (calls.filter fun call => decide (call.1 = urlPrefix)).findSome? fun call =>
          storedRoot fs call.2 := by
  induction calls with
  | nil => rfl
  | cons call calls ih =>
    rw [registered, List.filterMap_cons, List.filter_cons]
    by_cases hcall : call.1 = urlPrefix
    · rw [if_pos (decide_eq_true hcall), List.findSome?_cons]
      cases storedRoot fs call.2 with
      | none => exact ih
      | some root =>
        rw [hcall]
        exact List.lookup_cons_self
    · rw [if_neg (by simpa using hcall), ← ih]
      cases storedRoot fs call.2 with
      | none => rfl
      | some root =>
        rw [Option.map_some, List.lookup_cons, beq_eq_false_iff_ne.mpr (Ne.symm hcall)]
        rfl

theorem mem_registered_of_lookup (h : (registered fs calls).lookup urlPrefix = some root) :
    (urlPrefix, root) ∈ registered fs calls := by
  obtain ⟨before, after, heq, -⟩ := List.lookup_eq_some_iff.mp h
  rw [heq]
  exact List.mem_append_right before List.mem_cons_self

/-- What is registered has the prefix of a call. -/
theorem exists_mem_calls (h : (urlPrefix, root) ∈ registered fs calls) :
    ∃ call ∈ calls, call.1 = urlPrefix := by
  obtain ⟨call, hmem, hcall⟩ := List.mem_filterMap.mp h
  obtain ⟨root', -, heq⟩ := Option.map_eq_some_iff.mp hcall
  exact ⟨call, hmem, (Prod.mk.inj heq).1⟩

/-- A registered prefix is in the table. -/
theorem exists_mem_mountCalls {call : Bytes × Bytes} (h : call ∈ registered fs calls) :
    ∃ root, (call.1, root) ∈ mountCalls fs calls [] := by
  cases hlookup : (registered fs calls).lookup call.1 with
  | none =>
    rw [List.lookup_eq_none_iff] at hlookup
    simpa using hlookup call h
  | some root => exact ⟨root, mem_mountCalls.mpr hlookup⟩

/-! ### The selected mount -/

/-- The longest registered prefix that begins the path, with the root of its first registration. -/
structure LongestMount (fs : FileSystem) (calls : List (Bytes × Bytes))
    (path urlPrefix root : Bytes) : Prop where
  first : (registered fs calls).lookup urlPrefix = some root
  begins : urlPrefix <+: path
  longest : ∀ call ∈ registered fs calls, call.1 <+: path → call.1.length ≤ urlPrefix.length

/-- **The mount that the loop selects.** -/
theorem select_mountCalls_eq_some_iff :
    (mountCalls fs calls []).select path = some (urlPrefix, root) ↔
      LongestMount fs calls path urlPrefix root := by
  rw [Mounts.select, find?_eq_some_iff (ascending_mountCalls fs calls), mem_mountCalls]
  simp only [List.isPrefixOf_iff_prefix]
  constructor
  · rintro ⟨hfirst, hbegins, hleast⟩
    refine ⟨hfirst, hbegins, fun call hcall hpath => ?_⟩
    obtain ⟨root', hmem⟩ := exists_mem_mountCalls hcall
    rcases hleast _ hmem hpath with heq | hr
    · rw [← (Prod.mk.inj heq).1]
    · exact length_le_of_prefixComparator hr
  · rintro ⟨hfirst, hbegins, hlongest⟩
    refine ⟨hfirst, hbegins, ?_⟩
    rintro ⟨p, root'⟩ hmem (hpath : p <+: path)
    rw [mem_mountCalls] at hmem
    have hp : p.length ≤ urlPrefix.length :=
      hlongest _ (mem_registered_of_lookup hmem) hpath
    by_cases hlen : p.length = urlPrefix.length
    · -- two prefixes of the path of one length
      obtain rfl : p = urlPrefix := by
        rw [List.prefix_iff_eq_take.mp hpath, List.prefix_iff_eq_take.mp hbegins, hlen]
      rw [hfirst] at hmem
      exact Or.inl (by rw [Option.some.inj hmem])
    · exact Or.inr (prefixComparator_of_length_lt (Nat.lt_of_le_of_ne hp hlen))

theorem select_mountCalls_eq_none_iff :
    (mountCalls fs calls []).select path = none ↔
      ∀ call ∈ registered fs calls, ¬ call.1 <+: path := by
  rw [Mounts.select, List.find?_eq_none]
  simp only [List.isPrefixOf_iff_prefix]
  constructor
  · intro h call hcall
    obtain ⟨root, hmem⟩ := exists_mem_mountCalls hcall
    exact h (call.1, root) hmem
  · rintro h ⟨p, root⟩ hmem
    exact h _ (mem_registered_of_lookup (mem_mountCalls.mp hmem))

/-- The answers from a mount differ from that without one. -/
theorem answerFile_ne_no_mount (fs : FileSystem) (root path : Bytes) :
    answerFile fs root path ≠ some (Response.notFound (bytes "Mount does not exist")) := by
  intro h
  rw [answerFile] at h
  split_ifs at h
  · exact absurd (congrArg Response.body (Option.some.inj h)) (by decide)
  · exact absurd (congrArg Response.body (Option.some.inj h)) (by decide)
  · obtain ⟨size, -, hres⟩ := Option.map_eq_some_iff.mp h
    have hstatus : (200 : ℤ) = 404 := congrArg Response.status hres
    exact absurd hstatus (by decide)

/-- **The longest mount wins**: in the table of any calls of `MountStatic` with non-empty prefixes,
a GET request is answered from the longest registered prefix of its path, with the root of the first
registration; the order of the calls for different prefixes makes no difference. -/
theorem longest_mount_wins (fs fs' : FileSystem) (calls : List (Bytes × Bytes))
    (hne : ∀ call ∈ calls, call.1 ≠ []) (req : Request) (hget : req.method = .get) :
    (∀ urlPrefix root, (mountCalls fs calls []).select req.path = some (urlPrefix, root) ↔
      LongestMount fs calls req.path urlPrefix root) ∧
    (∀ urlPrefix root, LongestMount fs calls req.path urlPrefix root →
      serveStatic fs' (mountCalls fs calls []) req = serveStatic fs' [(urlPrefix, root)] req) ∧
    (serveStatic fs' (mountCalls fs calls []) req
        = some (Response.notFound (bytes "Mount does not exist")) ↔
      ∀ call ∈ registered fs calls, ¬ call.1 <+: req.path) ∧
    ∀ calls', (∀ urlPrefix, (calls'.filter fun call => decide (call.1 = urlPrefix))
        = calls.filter fun call => decide (call.1 = urlPrefix)) →
      mountCalls fs calls' [] = mountCalls fs calls [] := by
  have hselect : ∀ {urlPrefix root},
      (mountCalls fs calls []).select req.path = some (urlPrefix, root) → urlPrefix ≠ [] := by
    intro urlPrefix root hsel
    have hfirst := (select_mountCalls_eq_some_iff.mp hsel).first
    obtain ⟨call, hcall, rfl⟩ := exists_mem_calls (mem_registered_of_lookup hfirst)
    exact hne call hcall
  refine ⟨fun _ _ => select_mountCalls_eq_some_iff, ?_, ?_, ?_⟩
  · intro urlPrefix root hlongest
    have hsel := select_mountCalls_eq_some_iff.mpr hlongest
    rw [serveStatic_of_select hget hsel (hselect hsel),
      serveStatic_of_select hget (select_singleton hlongest.begins root) (hselect hsel)]
  · rw [← select_mountCalls_eq_none_iff]
    constructor
    · intro h
      cases hsel : (mountCalls fs calls []).select req.path with
      | none => rfl
      | some m =>
        obtain ⟨urlPrefix, root⟩ := m
        rw [serveStatic_of_select hget hsel (hselect hsel)] at h
        exact absurd h (answerFile_ne_no_mount fs' root _)
    · intro h
      refine serveStatic_of_no_mount hget fun urlPrefix root hsel => ?_
      rw [h] at hsel
      cases hsel
  · intro calls' horder
    refine eq_of_lookup_eq (ascending_mountCalls fs calls') (ascending_mountCalls fs calls) ?_
    intro urlPrefix
    rw [lookup_mountCalls, lookup_mountCalls, lookup_registered, lookup_registered, horder]

/-- Two prefixes, the shorter one first. -/
def twoMounts : List (Bytes × Bytes) :=
  [(bytes "/", bytes "/srv/www"), (bytes "/doc/", bytes "/srv/doc"),
    (bytes "/doc/", bytes "/srv/other")]

theorem longest_mount_wins_doc :
    (mountCalls siblingFiles twoMounts []).select (bytes "/doc/index.html")
        = some (bytes "/doc/", bytes "/srv/doc") ∧
      LongestMount siblingFiles twoMounts (bytes "/doc/index.html") (bytes "/doc/")
        (bytes "/srv/doc") := by
  have hsel : (mountCalls siblingFiles twoMounts []).select (bytes "/doc/index.html")
      = some (bytes "/doc/", bytes "/srv/doc") := by decide
  exact ⟨hsel, ((longest_mount_wins siblingFiles siblingFiles twoMounts (by decide)
    (getPath (bytes "/doc/index.html")) rfl).1 _ _).mp hsel⟩

end WebSocketsLib
