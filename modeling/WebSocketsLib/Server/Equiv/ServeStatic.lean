import WebSocketsLib.Fs.Equiv.Path
import WebSocketsLib.Server.ServeStatic

/-!
# What static serving can reach

`servedInside_iff`: the file of a response lies inside the root of its mount unless the path of the
request leads beside the root, to a file at or below an entry whose name begins with the name of the
root.

`serve_static` compares the texts of the two paths.  The text of the root can also end in the
middle of a name (`Beside`).
-/

namespace WebSocketsLib

open Fs Pieces

variable {fs : FileSystem} {mounts : Mounts} {req : Request} {root path p : Bytes}

/-! ### The roots of the mounts -/

theorem mem_emplace {urlPrefix : Bytes} {m : Bytes × Bytes}
    (h : m ∈ mounts.emplace urlPrefix root) : m ∈ mounts ∨ m = (urlPrefix, root) := by
  rw [Mounts.emplace] at h
  split_ifs at h
  · exact Or.inl h
  · rcases List.mem_append.mp h with hm | hm
    · exact Or.inl ((List.takeWhile_sublist _).subset hm)
    · rcases List.mem_cons.mp hm with hm | hm
      · exact Or.inr hm
      · exact Or.inl ((List.dropWhile_sublist _).subset hm)

/-- The roots that `MountStatic` enters are absolute, if they are not empty. -/
theorem isAbsolute_of_mountStatic {urlPrefix : Bytes} {mounts' : Mounts} (hroot : root ≠ [])
    (h : ∀ m ∈ mounts, isAbsolute m.2 = true)
    (hmount : mountStatic fs mounts urlPrefix root = some mounts') :
    ∀ m ∈ mounts', isAbsolute m.2 = true := by
  have hemplace : ∀ r, isAbsolute r = true → ∀ m ∈ mounts.emplace urlPrefix r,
      isAbsolute m.2 = true := by
    intro r hr m hm
    rcases mem_emplace hm with hm | rfl
    · exact h m hm
    · exact hr
  rw [mountStatic] at hmount
  split_ifs at hmount with hrel herr
  · obtain rfl := Option.some.inj hmount
    exact hemplace _ (isAbsolute_weaklyCanonical fs.cwd_isAbsolute root)
  · obtain rfl := Option.some.inj hmount
    refine hemplace root ?_
    by_contra habs
    exact hrel ⟨hroot, Bool.not_eq_true _ ▸ habs⟩

/-- **Every table of mounts** with non-empty roots has absolute roots. -/
theorem isAbsolute_of_mountAll {regs : List (Bytes × Bytes)} {mounts' : Mounts}
    (hroots : ∀ r ∈ regs, r.2 ≠ []) (h : ∀ m ∈ mounts, isAbsolute m.2 = true)
    (hmount : mountAll fs regs mounts = some mounts') : ∀ m ∈ mounts', isAbsolute m.2 = true := by
  induction regs generalizing mounts with
  | nil =>
    obtain rfl := Option.some.inj hmount
    exact h
  | cons r regs ih =>
    obtain ⟨hroot, hroots⟩ := List.forall_mem_cons.mp hroots
    obtain ⟨mounts₁, h₁, hmount⟩ := Option.bind_eq_some_iff.mp hmount
    exact ih hroots (isAbsolute_of_mountStatic hroot h h₁) hmount

/-! ### Inside the root -/

/-- The components of the root, without the empty one of a trailing separator, begin those of the
path. -/
def Inside (root p : Bytes) : Prop :=
  rootDirectory root ++ names root <+: components p

/-- The names lead beside the root: they leave the root by `..` and go on with a name that has the
last name of the root as a proper prefix.  The text of the root has no trailing or repeated
separators. -/
def Beside (root : Bytes) (ns : List Bytes) : Prop :=
  ∃ dir name ext rest, name ≠ [] ∧ ext ≠ [] ∧
    root = sep :: [sep].intercalate (dir ++ [name]) ∧
    normalNames true ns = dir ++ (name ++ ext) :: rest

theorem inside_of_prefix_names (hroot : isAbsolute root = true) (hp : isAbsolute p = true)
    (h : names root <+: names p) : Inside root p := by
  rw [Inside, components, rootDirectory, if_pos hroot, rootDirectory, if_pos hp, List.append_assoc]
  exact (List.prefix_append_right_inj _).mpr (h.trans (List.prefix_append _ _))

/-- What lies beside the root is not inside. -/
theorem not_inside_of_beside (hpath : isAbsolute path = true) (h : Beside root (names path)) :
    ¬ Inside root (lexicallyNormal path) := by
  obtain ⟨dir, name, ext, rest, hname, hext, hroot, hns⟩ := h
  have hmem : ∀ w ∈ dir ++ (name ++ ext) :: rest, IsName sep w := by
    rw [← hns]
    exact fun w hw => isName_of_mem_normalNames hw
  have hnames : names root = dir ++ [name] := by
    rw [hroot, names, pieces_cons_self]
    refine pieces_intercalate (List.forall_mem_append.mpr ⟨fun w hw => ?_, ?_⟩)
    · exact hmem w (List.mem_append_left _ hw)
    · have hlast := hmem (name ++ ext) (List.mem_append_right _ List.mem_cons_self)
      exact List.forall_mem_singleton.mpr
        ⟨hname, fun hsep => hlast.not_mem (List.mem_append_left ext hsep)⟩
  have habs : isAbsolute root = true := by
    rw [hroot]
    exact isAbsolute_cons _
  rw [Inside, components, names_lexicallyNormal hpath, hns, hnames, rootDirectory, if_pos habs,
    rootDirectory, if_pos (isAbsolute_lexicallyNormal hpath), List.append_assoc,
    List.prefix_append_right_inj, List.append_assoc, List.prefix_append_right_inj, List.cons_append,
    List.cons_prefix_cons]
  rintro ⟨heq, -⟩
  exact hext (List.self_eq_append_right.mp heq)

/-- What begins with the text of the root is inside or beside. -/
theorem inside_or_beside (hroot : isAbsolute root = true) (hpath : isAbsolute path = true)
    (htext : root <+: lexicallyNormal path) :
    Inside root (lexicallyNormal path) ∨ Beside root (names path) := by
  have hcanon := isAbsolute_lexicallyNormal hpath
  by_cases hend : endsWithSep root = true
  · -- the text ends with a separator, hence between two names
    obtain ⟨r, rfl⟩ := exists_of_endsWithSep hend
    obtain ⟨t, ht⟩ := htext
    refine Or.inl (inside_of_prefix_names hroot hcanon ?_)
    rw [← ht, List.append_assoc, List.singleton_append, names, names, pieces_concat_self,
      pieces_append_cons]
    exact List.prefix_append _ _
  · obtain ⟨r, rfl⟩ := exists_of_isAbsolute hroot
    have hne : r ≠ [] := by
      rintro rfl
      exact hend (by decide)
    have hlast : r.getLast? ≠ some sep := by
      intro hsep
      rw [endsWithSep, decide_eq_true_eq, List.getLast?_cons_of_ne_nil hne] at hend
      exact hend hsep
    obtain ⟨slash, hslash, heq⟩ := lexicallyNormal_of_absolute hpath
    -- the separator at the end of the path, if there is one, is not part of the text of the root
    have hjoined : r <+: [sep].intercalate (normalNames true (names path)) := by
      rw [heq, List.cons_prefix_cons] at htext
      rcases hslash with rfl | rfl
      · rw [List.append_nil] at htext
        exact htext.2
      · rcases List.prefix_concat_iff.mp htext.2 with rfl | hr
        · exact absurd List.getLast?_concat hlast
        · exact hr
    obtain ⟨dir, name, ext, rest, hname, hns, hr⟩ := prefix_intercalate hjoined hne hlast
    -- the text of the root ends with the name, or inside it
    by_cases hext : ext = []
    · refine Or.inl (inside_of_prefix_names hroot hcanon ?_)
      rw [hext, List.append_nil, List.append_cons] at hns
      have hdir : ∀ w ∈ dir ++ [name], IsName sep w := fun w hw =>
        isName_of_mem_normalNames (by rw [hns]; exact List.mem_append_left rest hw)
      rw [names_lexicallyNormal hpath, hns, names, pieces_cons_self, hr, pieces_intercalate hdir]
      exact List.prefix_append _ _
    · exact Or.inr ⟨dir, name, ext, rest, hname, hext, by rw [hr], hns⟩

/-! ### The answer -/

/-- The response with a file. -/
def fileResponse (file : Bytes) (size : ℕ) : Response :=
  { (Response.text (bytes "OK")).setHeader (bytes "content-type") (extType (extension file)) with
    sendfilePath := file, sendfileSize := size }

/-- The answer to a request for `path` in a mount with the given root. -/
def answerFile (fs : FileSystem) (root path : Bytes) : Option Response :=
  if fs.canonicalError path = true ∨ ¬ root <+: weaklyCanonical fs.cwd path then
    some (Response.notFound (bytes "Different root path"))
  else if fs.fileExists (weaklyCanonical fs.cwd path) ≠ some true then
    some (Response.notFound (bytes "File not found in root directory"))
  else
    (fs.fileSize (weaklyCanonical fs.cwd path)).map (fileResponse (weaklyCanonical fs.cwd path))

theorem take_eq_iff {xs ys : Bytes} : ys.take xs.length = xs ↔ xs <+: ys := by
  rw [List.prefix_iff_eq_take, eq_comm]

/-- The prefix of the selected mount begins the path. -/
theorem prefix_of_select {urlPrefix : Bytes} (h : mounts.select path = some (urlPrefix, root)) :
    urlPrefix <+: path :=
  List.isPrefixOf_iff_prefix.mp
    (List.find?_some (p := fun m : Bytes × Bytes => m.1.isPrefixOf path) h)

theorem select_singleton {urlPrefix : Bytes} (h : urlPrefix <+: path) (root : Bytes) :
    Mounts.select [(urlPrefix, root)] path = some (urlPrefix, root) := by
  rw [Mounts.select, List.find?_cons_of_pos]
  exact List.isPrefixOf_iff_prefix.mpr h

theorem serveStatic_of_not_get (h : req.method ≠ .get) :
    serveStatic fs mounts req = some (Response.badRequest (bytes "Method not supported")) := by
  rw [serveStatic, if_pos h]

/-- An empty prefix stands for no mount. -/
theorem serveStatic_of_no_mount (hget : req.method = .get)
    (hno : ∀ urlPrefix root, mounts.select req.path = some (urlPrefix, root) → urlPrefix = []) :
    serveStatic fs mounts req = some (Response.notFound (bytes "Mount does not exist")) := by
  rw [serveStatic, if_neg (not_not_intro hget)]
  cases hsel : mounts.select req.path with
  | none => rfl
  | some m =>
    obtain ⟨urlPrefix, root⟩ := m
    obtain rfl := hno urlPrefix root hsel
    rfl

/-- **The answer once a mount is selected.** -/
theorem serveStatic_of_select {urlPrefix : Bytes} (hget : req.method = .get)
    (hsel : mounts.select req.path = some (urlPrefix, root)) (hnonempty : urlPrefix ≠ []) :
    serveStatic fs mounts req
      = answerFile fs root (srvPath root (mountTail urlPrefix req.path)) := by
  rw [serveStatic, if_neg (not_not_intro hget), hsel]
  dsimp only [Option.getD_some]
  rw [if_neg hnonempty, answerFile]
  simp only [ne_eq, take_eq_iff]
  rfl

/-- The answer is a file, or an exception of `file_size`, if all checks pass. -/
theorem answerFile_of_checks (hcanonical : fs.canonicalError path = false)
    (htext : root <+: weaklyCanonical fs.cwd path)
    (hfound : fs.fileExists (weaklyCanonical fs.cwd path) = some true) :
    answerFile fs root path
      = (fs.fileSize (weaklyCanonical fs.cwd path)).map
          (fileResponse (weaklyCanonical fs.cwd path)) := by
  rw [answerFile, if_neg, if_neg (not_not_intro hfound)]
  rw [hcanonical, not_or, not_not]
  exact ⟨Bool.false_ne_true, htext⟩

/-- The checks pass when the answer is a file or an exception. -/
theorem checks_of_answerFile
    (h : ∀ res, answerFile fs root path = some res → res.sendfilePath ≠ []) :
    fs.canonicalError path = false ∧ root <+: weaklyCanonical fs.cwd path ∧
      fs.fileExists (weaklyCanonical fs.cwd path) = some true := by
  rw [answerFile] at h
  split_ifs at h with hcheck hfound
  · exact absurd rfl (h _ rfl)
  · exact absurd rfl (h _ rfl)
  · rw [not_or, Bool.not_eq_true, not_not] at hcheck
    exact ⟨hcheck.1, hcheck.2, not_not.mp hfound⟩

/-! ### Served files -/

/-- The checks of `serve_static` on the file system. -/
structure Servable (fs : FileSystem) (path : Bytes) : Prop where
  canonical : fs.canonicalError path = false
  found : fs.fileExists (weaklyCanonical fs.cwd path) = some true
  regular : (fs.fileSize (weaklyCanonical fs.cwd path)).isSome = true

/-- When a request is answered with the file that `path` names, and the mount is the given one. -/
structure Serves (fs : FileSystem) (mounts : Mounts) (req : Request) (urlPrefix root : Bytes) :
    Prop where
  get : req.method = .get
  selected : mounts.select req.path = some (urlPrefix, root)
  urlPrefix_ne_nil : urlPrefix ≠ []
  servable : Servable fs (srvPath root (mountTail urlPrefix req.path))
  text : root <+: weaklyCanonical fs.cwd (srvPath root (mountTail urlPrefix req.path))

/-- **What `serve_static` answers with a file.** -/
theorem serves_of_serveStatic {res : Response} (h : serveStatic fs mounts req = some res)
    (hfile : res.sendfilePath ≠ []) : ∃ urlPrefix root, Serves fs mounts req urlPrefix root ∧
      res.sendfilePath = weaklyCanonical fs.cwd (srvPath root (mountTail urlPrefix req.path)) := by
  have hget : req.method = .get := by
    by_contra hget
    rw [serveStatic_of_not_get hget] at h
    obtain rfl := Option.some.inj h
    exact hfile rfl
  by_cases hmount : ∃ urlPrefix root,
      mounts.select req.path = some (urlPrefix, root) ∧ urlPrefix ≠ []
  · obtain ⟨urlPrefix, root, hsel, hnonempty⟩ := hmount
    rw [serveStatic_of_select hget hsel hnonempty] at h
    have hanswer : ∀ res', answerFile fs root (srvPath root (mountTail urlPrefix req.path))
        = some res' → res'.sendfilePath ≠ [] := by
      intro res' hres'
      obtain rfl := Option.some.inj (h.symm.trans hres')
      exact hfile
    obtain ⟨hcanonical, htext, hfound⟩ := checks_of_answerFile hanswer
    rw [answerFile_of_checks hcanonical htext hfound] at h
    obtain ⟨size, hsize, rfl⟩ := Option.map_eq_some_iff.mp h
    have hregular : (fs.fileSize (weaklyCanonical fs.cwd
        (srvPath root (mountTail urlPrefix req.path)))).isSome = true := by
      rw [hsize]
      rfl
    exact ⟨urlPrefix, root, ⟨hget, hsel, hnonempty, ⟨hcanonical, hfound, hregular⟩, htext⟩, rfl⟩
  · have hno : ∀ urlPrefix root,
        mounts.select req.path = some (urlPrefix, root) → urlPrefix = [] := by
      intro urlPrefix root hsel
      by_contra hnonempty
      exact hmount ⟨urlPrefix, root, hsel, hnonempty⟩
    rw [serveStatic_of_no_mount hget hno] at h
    obtain rfl := Option.some.inj h
    exact absurd rfl hfile

theorem exists_serveStatic {urlPrefix : Bytes} (h : Serves fs mounts req urlPrefix root) :
    ∃ res, serveStatic fs mounts req = some res ∧
      res.sendfilePath = weaklyCanonical fs.cwd (srvPath root (mountTail urlPrefix req.path)) := by
  obtain ⟨hget, hsel, hnonempty, ⟨hcanonical, hfound, hregular⟩, htext⟩ := h
  obtain ⟨size, hsize⟩ := Option.isSome_iff_exists.mp hregular
  rw [serveStatic_of_select hget hsel hnonempty, answerFile_of_checks hcanonical htext hfound,
    hsize]
  exact ⟨_, rfl, rfl⟩

/-! ### Every request -/

/-- A file that is served lies inside the root of the mount that the request selects. -/
def ServedInside (fs : FileSystem) (mounts : Mounts) (req : Request) : Prop :=
  ∀ res, serveStatic fs mounts req = some res → res.sendfilePath ≠ [] →
    ∃ urlPrefix root, mounts.select req.path = some (urlPrefix, root) ∧
      Inside root res.sendfilePath

/-- A GET request whose path leads beside the root of its mount, to a regular file. -/
def LeadsBeside (fs : FileSystem) (mounts : Mounts) (req : Request) : Prop :=
  req.method = .get ∧ ∃ urlPrefix root, mounts.select req.path = some (urlPrefix, root) ∧
    urlPrefix ≠ [] ∧ Beside root (names root ++ names (mountTail urlPrefix req.path)) ∧
    Servable fs (srvPath root (mountTail urlPrefix req.path))

theorem names_srvPath (root tail : Bytes) :
    names (srvPath root tail) = names root ++ names tail := by
  rw [srvPath, names_append root (isAbsolute_relativePath tail), names_relativePath]

theorem isAbsolute_srvPath (hroot : isAbsolute root = true) (tail : Bytes) :
    isAbsolute (srvPath root tail) = true :=
  isAbsolute_append hroot (isAbsolute_relativePath tail)

/-- What leads beside the root passes the check of the texts. -/
theorem prefix_of_beside (hpath : isAbsolute path = true) (h : Beside root (names path)) :
    root <+: lexicallyNormal path := by
  obtain ⟨dir, name, ext, rest, -, -, hroot, hns⟩ := h
  obtain ⟨slash, -, heq⟩ := lexicallyNormal_of_absolute hpath
  rw [heq, hroot, hns, List.cons_prefix_cons]
  exact ⟨rfl, (intercalate_cut dir name ext rest).trans (List.prefix_append _ _)⟩

/-- **Static serving stays inside the root** of the mount exactly when the request does not lead
beside it: over every table that `MountStatic` builds from non-empty roots. -/
theorem servedInside_iff (fs : FileSystem) (regs : List (Bytes × Bytes)) {mounts : Mounts}
    (hroots : ∀ r ∈ regs, r.2 ≠ []) (hmount : mountAll fs regs [] = some mounts) (req : Request) :
    ServedInside fs mounts req ↔ ¬ LeadsBeside fs mounts req := by
  have habs := isAbsolute_of_mountAll hroots (fun _ hm => absurd hm List.not_mem_nil) hmount
  have hselected : ∀ {urlPrefix root}, mounts.select req.path = some (urlPrefix, root) →
      isAbsolute root = true := fun hsel => habs _ (List.mem_of_find?_eq_some hsel)
  constructor
  · -- the file beside the root passes all checks, and is not inside
    rintro hinside ⟨hget, urlPrefix, root, hsel, hnonempty, hbeside, hservable⟩
    have hpath := isAbsolute_srvPath (hselected hsel) (mountTail urlPrefix req.path)
    rw [← names_srvPath] at hbeside
    have hcanon := weaklyCanonical_of_absolute fs.cwd hpath
    have hserves : Serves fs mounts req urlPrefix root :=
      ⟨hget, hsel, hnonempty, hservable, by rw [hcanon]; exact prefix_of_beside hpath hbeside⟩
    obtain ⟨res, hres, hfile⟩ := exists_serveStatic hserves
    rw [hcanon] at hfile
    have hne : res.sendfilePath ≠ [] := by
      obtain ⟨r, hr⟩ := exists_of_isAbsolute (isAbsolute_lexicallyNormal hpath)
      rw [hfile, hr]
      exact List.cons_ne_nil sep r
    obtain ⟨urlPrefix', root', hsel', hin⟩ := hinside res hres hne
    obtain ⟨-, rfl⟩ := Prod.mk.inj (Option.some.inj (hsel.symm.trans hsel'))
    rw [hfile] at hin
    exact not_inside_of_beside hpath hbeside hin
  · -- a file that is served has the text of the root at its front
    intro hno res hres hfile
    obtain ⟨urlPrefix, root, hserves, hpathEq⟩ := serves_of_serveStatic hres hfile
    have hroot := hselected hserves.selected
    have hpath := isAbsolute_srvPath hroot (mountTail urlPrefix req.path)
    have htext := hserves.text
    rw [weaklyCanonical_of_absolute fs.cwd hpath] at hpathEq htext
    refine ⟨urlPrefix, root, hserves.selected, ?_⟩
    rw [hpathEq]
    refine (inside_or_beside hroot hpath htext).resolve_right fun hbeside => hno ?_
    rw [names_srvPath] at hbeside
    exact ⟨hserves.get, urlPrefix, root, hserves.selected, hserves.urlPrefix_ne_nil, hbeside,
      hserves.servable⟩

/-- A file system with one file, in a directory beside the root. -/
def siblingFiles : FileSystem where
  cwd := bytes "/"
  cwd_isAbsolute := rfl
  canonicalError _ := false
  fileExists p := some (decide (p = bytes "/srv/www-private/key" ∨ p = bytes "/srv/www/index.html"))
  fileSize p := if p = bytes "/srv/www-private/key" ∨ p = bytes "/srv/www/index.html" then some 1
    else none

/-- The mount of the whole URL space. -/
def wwwMount : List (Bytes × Bytes) :=
  [(bytes "/", bytes "/srv/www")]

def getPath (path : Bytes) : Request where
  method := .get
  path := path

theorem servedInside_iff_index :
    ServedInside siblingFiles wwwMount (getPath (bytes "/")) ∧
      ∃ res, serveStatic siblingFiles wwwMount (getPath (bytes "/")) = some res ∧
        res.sendfilePath = bytes "/srv/www/index.html" := by
  refine ⟨(servedInside_iff siblingFiles wwwMount (by decide) rfl _).mpr ?_, _, rfl, by decide⟩
  rintro ⟨-, urlPrefix, root, ⟨rfl⟩, -, hbeside, -⟩
  rw [← names_srvPath] at hbeside
  exact not_inside_of_beside (by decide) hbeside (by unfold Inside; decide)

/-- A path through `..` into a sibling of the root. -/
theorem not_servedInside_sibling :
    ¬ ∀ (fs : FileSystem) (regs : List (Bytes × Bytes)) (mounts : Mounts) (req : Request),
      (∀ r ∈ regs, r.2 ≠ []) → mountAll fs regs [] = some mounts → ServedInside fs mounts req := by
  intro h
  have hinside := h siblingFiles wwwMount _ (getPath (bytes "/../www-private/key")) (by decide) rfl
  obtain ⟨urlPrefix, root, ⟨rfl⟩, hin⟩ := hinside _ rfl (by decide)
  unfold Inside at hin
  exact absurd hin (by decide)

end WebSocketsLib
