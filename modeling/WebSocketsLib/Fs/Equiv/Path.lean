import WebSocketsLib.Fs.Path
import Mathlib.Tactic.Common

/-!
# The names of a path

A path is known by whether it is absolute and by its names: `names_append` and
`names_lexicallyNormal` compute those of a joined and of a normalised path, and
`lexicallyNormal_of_absolute` gives the text of the latter.
-/

namespace WebSocketsLib

namespace Fs

open Pieces

variable {p q : Bytes}

/-! ### Joined paths -/

theorem exists_of_isAbsolute (h : isAbsolute p = true) : ∃ r, p = sep :: r := by
  cases p with
  | nil => simp [isAbsolute] at h
  | cons c r =>
    obtain rfl : c = sep := by simpa [isAbsolute] using h
    exact ⟨r, rfl⟩

theorem exists_of_endsWithSep (h : endsWithSep p = true) : ∃ r, p = r ++ [sep] := by
  rw [endsWithSep, decide_eq_true_eq] at h
  exact ⟨p.dropLast, (List.dropLast_append_getLast? sep h).symm⟩

theorem isAbsolute_cons (r : Bytes) : isAbsolute (sep :: r) = true :=
  decide_eq_true rfl

@[simp]
theorem isAbsolute_relativePath (p : Bytes) : isAbsolute (relativePath p) = false := by
  induction p with
  | nil => rfl
  | cons c p ih =>
    rw [relativePath, List.dropWhile_cons]
    split_ifs with hc
    · exact ih
    · simpa [isAbsolute] using hc

@[simp]
theorem names_relativePath (p : Bytes) : names (relativePath p) = names p := by
  induction p with
  | nil => rfl
  | cons c p ih =>
    rw [relativePath, List.dropWhile_cons]
    split_ifs with hc
    · rw [decide_eq_true_eq] at hc
      subst hc
      exact ih.trans (pieces_cons_self p).symm
    · rfl

/-- The separator that `operator/` puts behind a path. -/
def glue (p : Bytes) : Bytes :=
  if p = [] ∨ endsWithSep p = true then [] else [sep]

theorem append_of_relative (p : Bytes) (hq : isAbsolute q = false) :
    append p q = p ++ glue p ++ q := by
  rw [append, if_neg (by rw [hq]; exact Bool.false_ne_true), glue]
  split_ifs
  · rw [List.append_nil]
  · rw [List.append_assoc]
    rfl

theorem glue_append (p : Bytes) (hq : q ≠ []) : glue (p ++ q) = glue q := by
  rw [glue, glue, endsWithSep, List.getLast?_append_of_ne_nil p hq, endsWithSep]
  simp only [List.append_eq_nil_iff, hq, and_false]

/-- **The names of a joined path** are those of its parts. -/
theorem names_append (p : Bytes) (hq : isAbsolute q = false) :
    names (append p q) = names p ++ names q := by
  rw [append, if_neg (by rw [hq]; exact Bool.false_ne_true)]
  split_ifs with hp
  · rcases hp with rfl | hp
    · show names q = pieces sep [] ++ names q
      rw [pieces_nil, List.nil_append]
    · obtain ⟨r, rfl⟩ := exists_of_endsWithSep hp
      rw [List.append_assoc, List.singleton_append, names, names, pieces_append_cons,
        pieces_concat_self]
  · exact pieces_append_cons p q

theorem isAbsolute_append (hp : isAbsolute p = true) (hq : isAbsolute q = false) :
    isAbsolute (append p q) = true := by
  obtain ⟨r, rfl⟩ := exists_of_isAbsolute hp
  have hhead : ∃ s, append (sep :: r) q = sep :: s := by
    rw [append, if_neg (by rw [hq]; exact Bool.false_ne_true)]
    by_cases hend : sep :: r = [] ∨ endsWithSep (sep :: r) = true
    · exact ⟨_, if_pos hend⟩
    · exact ⟨_, if_neg hend⟩
  obtain ⟨s, hs⟩ := hhead
  rw [hs]
  exact isAbsolute_cons s

theorem isAbsolute_absolute {cwd : Bytes} (hcwd : isAbsolute cwd = true) (p : Bytes) :
    isAbsolute (absolute cwd p) = true := by
  rw [absolute]
  split_ifs with hp
  · exact hp
  · exact isAbsolute_append hcwd (Bool.not_eq_true _ ▸ hp)

/-! ### Normal paths -/

/-- One name is put before the others or changes nothing but what is there. -/
theorem mem_of_mem_normalStep {rooted : Bool} {before : List Bytes} {name w : Bytes}
    (h : w ∈ normalStep rooted before name) : w = name ∨ w ∈ before := by
  cases before with
  | nil =>
    rw [normalStep] at h
    split_ifs at h with hdot hdotDot hrooted
    · exact absurd h List.not_mem_nil
    · exact absurd h List.not_mem_nil
    · exact Or.inl ((List.mem_singleton.mp h).trans hdotDot.symm)
    · exact Or.inl (List.mem_singleton.mp h)
  | cons last rest =>
    rw [normalStep] at h
    split_ifs at h with hdot hdotDot hlast
    · exact Or.inr h
    · rcases List.mem_cons.mp h with hw | hw
      · exact Or.inl (hw.trans hdotDot.symm)
      · exact Or.inr hw
    · exact Or.inr (List.mem_cons_of_mem last h)
    · exact List.mem_cons.mp h

/-- Resolving `.` and `..` adds no names. -/
theorem mem_of_mem_normalNames {rooted : Bool} {ns : List Bytes} {w : Bytes}
    (h : w ∈ normalNames rooted ns) : w ∈ ns := by
  have hfold : ∀ ms before : List Bytes, w ∈ ms.foldl (normalStep rooted) before →
      w ∈ ms ∨ w ∈ before := by
    intro ms
    induction ms with
    | nil => exact fun before hw => Or.inr hw
    | cons m ms ih =>
      intro before hw
      rcases ih _ hw with hw | hw
      · exact Or.inl (List.mem_cons_of_mem m hw)
      · rcases mem_of_mem_normalStep hw with rfl | hw
        · exact Or.inl List.mem_cons_self
        · exact Or.inr hw
  rcases hfold ns [] (List.mem_reverse.mp h) with hw | hw
  · exact hw
  · exact absurd hw List.not_mem_nil

/-- **The text of a normal absolute path.** -/
theorem lexicallyNormal_of_absolute (hp : isAbsolute p = true) :
    ∃ slash, (slash = [] ∨ slash = [sep]) ∧
      lexicallyNormal p = sep :: ([sep].intercalate (normalNames true (names p)) ++ slash) := by
  obtain ⟨r, rfl⟩ := exists_of_isAbsolute hp
  rw [lexicallyNormal, if_neg (List.cons_ne_nil sep r), hp]
  dsimp only
  rw [if_pos rfl]
  split_ifs
  · exact ⟨[sep], Or.inr rfl, rfl⟩
  · exact ⟨[], Or.inl rfl, rfl⟩

theorem isName_of_mem_normalNames {rooted : Bool} {w : Bytes}
    (h : w ∈ normalNames rooted (names p)) : IsName sep w :=
  isName_of_mem_pieces (mem_of_mem_normalNames h)

/-- **The names of a normal path** are the names that `.` and `..` leave. -/
theorem names_lexicallyNormal (hp : isAbsolute p = true) :
    names (lexicallyNormal p) = normalNames true (names p) := by
  obtain ⟨slash, hslash, heq⟩ := lexicallyNormal_of_absolute hp
  have hnames : pieces sep ([sep].intercalate (normalNames true (names p)))
      = normalNames true (names p) :=
    pieces_intercalate fun w hw => isName_of_mem_normalNames hw
  rw [heq, names, pieces_cons_self]
  rcases hslash with rfl | rfl
  · rw [List.append_nil, hnames]
  · rw [pieces_concat_self, hnames]

theorem isAbsolute_lexicallyNormal (hp : isAbsolute p = true) :
    isAbsolute (lexicallyNormal p) = true := by
  obtain ⟨slash, -, heq⟩ := lexicallyNormal_of_absolute hp
  rw [heq]
  exact isAbsolute_cons _

theorem isAbsolute_weaklyCanonical {cwd : Bytes} (hcwd : isAbsolute cwd = true) (p : Bytes) :
    isAbsolute (weaklyCanonical cwd p) = true :=
  isAbsolute_lexicallyNormal (isAbsolute_absolute hcwd p)

theorem weaklyCanonical_of_absolute (cwd : Bytes) (hp : isAbsolute p = true) :
    weaklyCanonical cwd p = lexicallyNormal p := by
  rw [weaklyCanonical, absolute, if_pos hp]

/-! ### Names without `.` and `..` -/

/-- The name is neither `.` nor `..`. -/
def Plain (w : Bytes) : Prop :=
  w ≠ dot ∧ w ≠ dotDot

theorem normalStep_of_plain {w : Bytes} (hw : Plain w) (rooted : Bool) (before : List Bytes) :
    normalStep rooted before w = w :: before := by
  rw [normalStep.eq_def, if_neg hw.1, if_neg hw.2]

theorem foldl_normalStep_of_plain {ns : List Bytes} (h : ∀ w ∈ ns, Plain w) (rooted : Bool)
    (before : List Bytes) : ns.foldl (normalStep rooted) before = ns.reverse ++ before := by
  induction ns generalizing before with
  | nil => rfl
  | cons w ns ih =>
    obtain ⟨hw, hns⟩ := List.forall_mem_cons.mp h
    rw [List.foldl_cons, normalStep_of_plain hw, ih hns, List.reverse_cons, List.append_assoc]
    rfl

/-- **Plain names** are kept. -/
theorem normalNames_append_of_plain {ns : List Bytes} (h : ∀ w ∈ ns, Plain w) (rooted : Bool)
    (ms : List Bytes) : normalNames rooted (ms ++ ns) = normalNames rooted ms ++ ns := by
  rw [normalNames, List.foldl_append, foldl_normalStep_of_plain h, List.reverse_append,
    List.reverse_reverse]
  rfl

/-- At the root no `..` is kept. -/
theorem plain_of_mem_foldl_normalStep {ms before : List Bytes} (hbefore : ∀ w ∈ before, Plain w) :
    ∀ w ∈ ms.foldl (normalStep true) before, Plain w := by
  induction ms generalizing before with
  | nil => exact hbefore
  | cons m ms ih =>
    refine ih ?_
    by_cases hdot : m = dot
    · rw [normalStep.eq_def, if_pos hdot]
      exact hbefore
    · by_cases hdotDot : m = dotDot
      · rw [normalStep.eq_def, if_neg hdot, if_pos hdotDot]
        cases before with
        | nil => exact hbefore
        | cons last rest =>
          obtain ⟨hlast, hrest⟩ := List.forall_mem_cons.mp hbefore
          dsimp only
          rw [if_neg hlast.2]
          exact hrest
      · rw [normalStep_of_plain ⟨hdot, hdotDot⟩]
        exact List.forall_mem_cons.mpr ⟨⟨hdot, hdotDot⟩, hbefore⟩

theorem plain_of_mem_normalNames {ms : List Bytes} {w : Bytes} (h : w ∈ normalNames true ms) :
    Plain w :=
  plain_of_mem_foldl_normalStep (fun _ hw => absurd hw List.not_mem_nil) w (List.mem_reverse.mp h)

/-- Normal names at the beginning are those of what they come from. -/
theorem normalNames_append_left (ms ns : List Bytes) :
    normalNames true (normalNames true ms ++ ns) = normalNames true (ms ++ ns) := by
  have hplain : ∀ w ∈ normalNames true ms, Plain w := fun _ hw => plain_of_mem_normalNames hw
  have hfold := foldl_normalStep_of_plain hplain true []
  rw [normalNames, List.foldl_append, hfold, normalNames, List.reverse_reverse, List.append_nil,
    normalNames, List.foldl_append]

/-- The relative path of a file: its last component is a name, and all names are plain. -/
structure FilePath (r : Bytes) : Prop where
  relative : isAbsolute r = false
  ne_nil : r ≠ []
  file : endsWithSep r = false
  plain : ∀ w ∈ names r, Plain w

theorem FilePath.names_ne_nil {r : Bytes} (hr : FilePath r) : names r ≠ [] := by
  cases r with
  | nil => exact absurd rfl hr.ne_nil
  | cons c r =>
    refine pieces_cons_ne_nil (fun hc => ?_) r
    have habs := hr.relative
    rw [hc, isAbsolute_cons] at habs
    cases habs

/-- **The normal path of a file below a directory.** -/
theorem lexicallyNormal_append {r : Bytes} (hp : isAbsolute p = true) (hr : FilePath r) :
    lexicallyNormal (append p r)
      = sep :: [sep].intercalate (normalNames true (names p) ++ names r) := by
  have habs := isAbsolute_append hp hr.relative
  have hnames : names (append p r) = names p ++ names r := names_append p hr.relative
  have hend : endsWithSep (append p r) = false := by
    rw [append_of_relative p hr.relative, endsWithSep, List.getLast?_append_of_ne_nil _ hr.ne_nil]
    exact hr.file
  have hlast : ∀ w, ¬ Plain w → (names (append p r)).getLast? ≠ some w := by
    intro w hw hlast
    rw [hnames, List.getLast?_append_of_ne_nil _ hr.names_ne_nil] at hlast
    exact hw (hr.plain w (List.mem_of_getLast? hlast))
  have hdirectory : namesDirectory (append p r) = false := by
    rw [namesDirectory, hend, decide_eq_false (hlast dot fun h => h.1 rfl),
      decide_eq_false (hlast dotDot fun h => h.2 rfl)]
    rfl
  obtain ⟨t, ht⟩ := exists_of_isAbsolute habs
  have hne : append p r ≠ [] := by
    rw [ht]
    exact List.cons_ne_nil sep t
  rw [lexicallyNormal, if_neg hne, if_pos habs, if_neg (by rw [hdirectory]; simp), List.append_nil,
    habs, hnames, normalNames_append_of_plain hr.plain]

/-- Normalising a directory first makes no difference. -/
theorem lexicallyNormal_append_lexicallyNormal {r : Bytes} (hp : isAbsolute p = true)
    (hr : FilePath r) :
    lexicallyNormal (append (lexicallyNormal p) r) = lexicallyNormal (append p r) := by
  have hnormal := normalNames_append_left (names p) []
  rw [List.append_nil, List.append_nil] at hnormal
  rw [lexicallyNormal_append (isAbsolute_lexicallyNormal hp) hr, lexicallyNormal_append hp hr,
    names_lexicallyNormal hp, hnormal]

/-- **The text of a normal directory** begins those of the files below it. -/
theorem lexicallyNormal_prefix_append {r : Bytes} (hp : isAbsolute p = true) (hr : FilePath r) :
    lexicallyNormal p <+: lexicallyNormal (append p r) := by
  obtain ⟨s, rfl⟩ := exists_of_isAbsolute hp
  rw [lexicallyNormal_append hp hr, lexicallyNormal, if_neg (List.cons_ne_nil sep s), if_pos hp,
    List.cons_prefix_cons, hp]
  refine ⟨rfl, prefix_intercalate_append _ hr.names_ne_nil ?_⟩
  split_ifs with hslash
  · exact Or.inr ⟨hslash.1, rfl⟩
  · exact Or.inl rfl

/-- A joined path is made absolute by its beginning. -/
theorem absolute_append {cwd r : Bytes} (hne : p ≠ []) (hr : isAbsolute r = false) :
    absolute cwd (append p r) = append (absolute cwd p) r := by
  cases hp : isAbsolute p with
  | true => rw [absolute, if_pos (isAbsolute_append hp hr), absolute, if_pos hp]
  | false =>
    have hjoined : isAbsolute (append p r) = false := by
      rw [append_of_relative p hr, List.append_assoc, isAbsolute, List.head?_append_of_ne_nil p hne]
      exact hp
    rw [absolute, if_neg (by rw [hjoined]; exact Bool.false_ne_true), absolute,
      if_neg (by rw [hp]; exact Bool.false_ne_true), append_of_relative cwd hjoined,
      append_of_relative p hr, append_of_relative cwd hp, append_of_relative _ hr,
      glue_append _ hne]
    simp only [List.append_assoc]

end Fs

end WebSocketsLib
