import WebSocketsLib.Server.Equiv.Mounts

/-!
# The files of a mounted directory

`fetched_iff`: a file below a mounted directory can be fetched if the directory was given as a
relative path, or as an absolute one whose text begins the normal path of the file.

`MountStatic` normalises relative roots only (`storedRoot`), and `serve_static` compares the root as
it is stored with the normal path of the file (`prefix_storedRoot`).
-/

namespace WebSocketsLib

open Fs SortedMap

variable {fs : FileSystem} {calls : List (Bytes × Bytes)} {root r urlPrefix : Bytes} {size : ℕ}

/-- A regular file at `r` below a directory that was mounted as `root`, under the longest prefix of
its URL.  `weakly_canonical` has no errors. -/
structure MountedFile (fs : FileSystem) (calls : List (Bytes × Bytes)) (urlPrefix root r : Bytes)
    (size : ℕ) : Prop where
  canonical : ∀ p, fs.canonicalError p = false
  first : (calls.filter fun call => decide (call.1 = urlPrefix)).head? = some (urlPrefix, root)
  root_ne_nil : root ≠ []
  endsWithSep : endsWithSep urlPrefix = true
  file : FilePath r
  longest : ∀ call ∈ calls, call.1 <+: urlPrefix ++ r → call.1.length ≤ urlPrefix.length
  found : fs.fileExists (weaklyCanonical fs.cwd (append root r)) = some true
  regular : fs.fileSize (weaklyCanonical fs.cwd (append root r)) = some size

/-- The answer is the file at `r` below `root`. -/
def Fetched (fs : FileSystem) (mounts : Mounts) (req : Request) (root r : Bytes) (size : ℕ) :
    Prop :=
  ∃ res, serveStatic fs mounts req = some res ∧ res.status = 200 ∧
    res.sendfilePath = weaklyCanonical fs.cwd (append root r) ∧ res.sendfileSize = size

/-! ### The stored root -/

theorem storedRoot_of_relative (hne : root ≠ []) (hroot : isAbsolute root = false)
    (hcanonical : fs.canonicalError root = false) :
    storedRoot fs root = some (weaklyCanonical fs.cwd root) := by
  rw [storedRoot, if_pos ⟨hne, hroot⟩, if_neg (by rw [hcanonical]; exact Bool.false_ne_true)]

theorem storedRoot_of_absolute (hroot : isAbsolute root = true) :
    storedRoot fs root = some root := by
  rw [storedRoot, if_neg]
  rintro ⟨-, hrel⟩
  rw [hroot] at hrel
  cases hrel

/-- The stored root is absolute, and names the same files. -/
theorem weaklyCanonical_storedRoot {stored : Bytes} (hne : root ≠ [])
    (hcanonical : fs.canonicalError root = false) (hr : FilePath r)
    (hstored : storedRoot fs root = some stored) :
    weaklyCanonical fs.cwd (append stored r) = weaklyCanonical fs.cwd (append root r) := by
  cases habs : isAbsolute root with
  | true =>
    rw [storedRoot_of_absolute habs] at hstored
    rw [Option.some.inj hstored]
  | false =>
    rw [storedRoot_of_relative hne habs hcanonical] at hstored
    obtain rfl := Option.some.inj hstored
    have hcwd := isAbsolute_absolute fs.cwd_isAbsolute root
    have hnormal := isAbsolute_append (isAbsolute_lexicallyNormal hcwd) hr.relative
    calc weaklyCanonical fs.cwd (append (lexicallyNormal (absolute fs.cwd root)) r)
        = lexicallyNormal (append (lexicallyNormal (absolute fs.cwd root)) r) :=
          weaklyCanonical_of_absolute fs.cwd hnormal
      _ = lexicallyNormal (append (absolute fs.cwd root) r) :=
          lexicallyNormal_append_lexicallyNormal hcwd hr
      _ = weaklyCanonical fs.cwd (append root r) := by
          rw [weaklyCanonical, absolute_append hne hr.relative]

/-- **When the stored root begins the path of the file.** -/
theorem prefix_storedRoot {stored : Bytes} (hne : root ≠ [])
    (hcanonical : fs.canonicalError root = false) (hr : FilePath r)
    (hstored : storedRoot fs root = some stored) :
    stored <+: weaklyCanonical fs.cwd (append root r) ↔
      isAbsolute root = false ∨ root <+: weaklyCanonical fs.cwd (append root r) := by
  cases habs : isAbsolute root with
  | true =>
    rw [storedRoot_of_absolute habs] at hstored
    obtain rfl := Option.some.inj hstored
    simp
  | false =>
    rw [storedRoot_of_relative hne habs hcanonical] at hstored
    obtain rfl := Option.some.inj hstored
    refine iff_of_true ?_ (Or.inl rfl)
    rw [weaklyCanonical, weaklyCanonical, absolute_append hne hr.relative]
    exact lexicallyNormal_prefix_append (isAbsolute_absolute fs.cwd_isAbsolute root) hr

/-- A root in normal form begins the paths of all files below it. -/
theorem prefix_of_normal (hroot : isAbsolute root = true) (hnormal : lexicallyNormal root = root)
    (hr : FilePath r) : root <+: weaklyCanonical fs.cwd (append root r) := by
  rw [weaklyCanonical_of_absolute fs.cwd (isAbsolute_append hroot hr.relative)]
  conv_lhs => rw [← hnormal]
  exact lexicallyNormal_prefix_append hroot hr

/-! ### The mount of the file -/

/-- The file is looked for below the stored root. -/
theorem longestMount_of_mountedFile {stored : Bytes}
    (h : MountedFile fs calls urlPrefix root r size) (hstored : storedRoot fs root = some stored) :
    LongestMount fs calls (urlPrefix ++ r) urlPrefix stored := by
  refine ⟨?_, List.prefix_append urlPrefix r, fun call hcall hpath => ?_⟩
  · obtain ⟨rest, hrest⟩ := List.head?_eq_some_iff.mp h.first
    rw [lookup_registered, hrest, List.findSome?_cons, hstored]
  · obtain ⟨call', hmem, heq⟩ := exists_mem_calls hcall
    rw [← heq] at hpath ⊢
    exact h.longest call' hmem hpath

theorem mountTail_append (urlPrefix : Bytes) (hr : FilePath r) :
    mountTail urlPrefix (urlPrefix ++ r) = r := by
  rw [mountTail, List.drop_left, if_neg]
  rintro (hnil | hlast)
  · exact hr.ne_nil hnil
  · have hend := hr.file
    rw [Fs.endsWithSep, decide_eq_false_iff_not] at hend
    exact hend hlast

theorem relativePath_of_relative (hr : isAbsolute r = false) : relativePath r = r := by
  cases r with
  | nil => rfl
  | cons c r =>
    rw [relativePath, List.dropWhile_cons, if_neg]
    rw [decide_eq_true_eq]
    rintro rfl
    rw [isAbsolute_cons] at hr
    cases hr

/-- **A file of a mounted directory** can be fetched exactly when its root is relative, or its text
begins the normal path of the file. -/
theorem fetched_iff (h : MountedFile fs calls urlPrefix root r size) {req : Request}
    (hget : req.method = .get) (hpath : req.path = urlPrefix ++ r) :
    Fetched fs (mountCalls fs calls []) req root r size ↔
      isAbsolute root = false ∨ root <+: weaklyCanonical fs.cwd (append root r) := by
  obtain ⟨stored, hstored⟩ : ∃ stored, storedRoot fs root = some stored := by
    cases habs : isAbsolute root with
    | true => exact ⟨root, storedRoot_of_absolute habs⟩
    | false => exact ⟨_, storedRoot_of_relative h.root_ne_nil habs (h.canonical root)⟩
  have hfile := weaklyCanonical_storedRoot h.root_ne_nil (h.canonical root) h.file hstored
  have hsel : (mountCalls fs calls []).select req.path = some (urlPrefix, stored) := by
    rw [hpath]
    exact select_mountCalls_eq_some_iff.mpr (longestMount_of_mountedFile h hstored)
  have hnonempty : urlPrefix ≠ [] := by
    rintro rfl
    exact absurd h.endsWithSep (by decide)
  have hanswer : serveStatic fs (mountCalls fs calls []) req
      = answerFile fs stored (append stored r) := by
    rw [serveStatic_of_select hget hsel hnonempty, hpath, mountTail_append urlPrefix h.file,
      srvPath, relativePath_of_relative h.file.relative]
  rw [← prefix_storedRoot h.root_ne_nil (h.canonical root) h.file hstored, Fetched, hanswer]
  constructor
  · rintro ⟨res, hres, hstatus, -⟩
    rw [answerFile] at hres
    split_ifs at hres with hcheck hfound
    · -- the texts differ
      obtain rfl := Option.some.inj hres
      exact absurd hstatus (by decide)
    · obtain rfl := Option.some.inj hres
      exact absurd hstatus (by decide)
    · rw [← hfile]
      exact not_not.mp (not_or.mp hcheck).2
  · intro htext
    rw [← hfile] at htext ⊢
    have hfound := h.found
    have hregular := h.regular
    rw [← hfile] at hfound hregular
    rw [answerFile_of_checks (h.canonical _) htext hfound, hregular]
    exact ⟨_, rfl, rfl, rfl, rfl⟩

/-- A mount of the directory of the index, in the given spelling. -/
def indexMount (root : Bytes) : List (Bytes × Bytes) :=
  [(bytes "/", root)]

theorem mountedFile_index {root : Bytes} (hne : root ≠ [])
    (hfile : weaklyCanonical (bytes "/") (append root (bytes "index.html"))
      = bytes "/srv/www/index.html") :
    MountedFile siblingFiles (indexMount root) (bytes "/") root (bytes "index.html") 1 where
  canonical _ := rfl
  first := rfl
  root_ne_nil := hne
  endsWithSep := by decide
  file := ⟨by decide, by decide, by decide, by
    intro w hw
    rw [show names (bytes "index.html") = [bytes "index.html"] by decide, List.mem_singleton] at hw
    rw [hw]
    exact ⟨by decide, by decide⟩⟩
  longest call hcall _ := by
    obtain rfl := List.mem_singleton.mp hcall
    exact le_refl 1
  found := by
    rw [show siblingFiles.cwd = bytes "/" from rfl, hfile]
    decide
  regular := by
    rw [show siblingFiles.cwd = bytes "/" from rfl, hfile]
    decide

theorem fetched_iff_relative :
    Fetched siblingFiles (mountCalls siblingFiles (indexMount (bytes "srv/../srv/www")) [])
      (getPath (bytes "/index.html")) (bytes "srv/../srv/www") (bytes "index.html") 1 :=
  (fetched_iff (mountedFile_index (by decide) (by decide)) rfl (by decide)).mpr
    (Or.inl (by decide))

/-- An absolute root with a `.` in it. -/
theorem not_fetched_dot :
    ¬ ∀ (fs : FileSystem) (calls : List (Bytes × Bytes)) (urlPrefix root r : Bytes) (size : ℕ)
      (req : Request), MountedFile fs calls urlPrefix root r size → req.method = .get →
      req.path = urlPrefix ++ r → Fetched fs (mountCalls fs calls []) req root r size := by
  intro h
  obtain ⟨res, hres, hstatus, -⟩ := h siblingFiles (indexMount (bytes "/srv/./www")) _ _ _ _
    (getPath (bytes "/index.html")) (mountedFile_index (by decide) (by decide)) rfl (by decide)
  obtain ⟨rfl⟩ := hres
  exact absurd hstatus (by decide)

end WebSocketsLib
