import WebSocketsLib.Http.Equiv.Request
import WebSocketsLib.Lib.Pieces
import WebSocketsLib.Lib.SortedMap

/-!
# Reflected request data

`reflected_head`: what a request carries cannot split the head of a response that it is copied to.

* `noSpace_parseFirstLine`, `subset_of_mem_splitTarget`: the words of the request line, and what is
  cut out of the target.
* `noLf_parseHeaderLines`: names and values of headers come from single lines.
* `count_lf_headerText`, `splitOn_headerText`: the lines of a head.
-/

namespace WebSocketsLib

open Pieces SortedMap

/-- The string has no white space. -/
def NoSpace (s : Bytes) : Prop :=
  ∀ c ∈ s, isSpace c = false

theorem NoSpace.mono {s t : Bytes} (h : NoSpace t) (hsub : s ⊆ t) : NoSpace s :=
  fun c hc => h c (hsub hc)

theorem NoSpace.noLf {s : Bytes} (h : NoSpace s) : 0x0A ∉ s :=
  fun hmem => absurd (h _ hmem) (by decide)

/-! ### The request line -/

theorem noSpace_extractWord {s w rest : Bytes} (h : extractWord s = some (w, rest)) :
    NoSpace w := by
  rw [extractWord] at h
  split_ifs at h
  obtain ⟨rfl, -⟩ := Prod.mk.inj (Option.some.inj h)
  intro c hc
  simpa using List.mem_takeWhile_imp hc

/-- **The words of the request line** have no white space. -/
theorem noSpace_parseFirstLine (line : Bytes) :
    NoSpace (parseFirstLine line).2.1 ∧ NoSpace (parseFirstLine line).2.2 := by
  have hnil : NoSpace [] := fun _ hc => absurd hc List.not_mem_nil
  rw [parseFirstLine]
  cases hmethod : extractWord line with
  | none => exact ⟨hnil, hnil⟩
  | some m =>
    obtain ⟨method, rest⟩ := m
    dsimp only
    cases htarget : extractWord rest with
    | none => exact ⟨hnil, hnil⟩
    | some t =>
      obtain ⟨target, rest'⟩ := t
      dsimp only
      have ht : NoSpace target := noSpace_extractWord htarget
      cases hversion : extractWord rest' with
      | none => exact ⟨ht, hnil⟩
      | some v =>
        obtain ⟨version, rest''⟩ := v
        exact ⟨ht, noSpace_extractWord hversion⟩

/-! ### The target -/

theorem mem_emplaceParam {params : Params} {param : Bytes} {e : Bytes × Bytes}
    (h : e ∈ emplaceParam params param) : e ∈ params ∨ e.1 ⊆ param ∧ e.2 ⊆ param := by
  have hemplace : ∀ key value, key ⊆ param → value ⊆ param →
      e ∈ params.emplace key value → e ∈ params ∨ e.1 ⊆ param ∧ e.2 ⊆ param := by
    intro key value hkey hvalue he
    have hperm := perm_insertLast (r := fun a b => decide (a < b)) params key value
    rcases List.mem_cons.mp (hperm.mem_iff.mp he) with rfl | he
    · exact Or.inr ⟨hkey, hvalue⟩
    · exact Or.inl he
  rw [emplaceParam] at h
  split_ifs at h
  · exact Or.inl h
  · cases hidx : param.idxOf? 0x3D with
    | none =>
      rw [hidx] at h
      exact hemplace _ _ (List.Subset.refl _) (List.nil_subset _) h
    | some eq =>
      rw [hidx] at h
      exact hemplace _ _ (List.take_subset _ _) (List.drop_subset _ _) h

theorem mem_foldl_emplaceParam {query : List Bytes} {params : Params} {e : Bytes × Bytes}
    (h : e ∈ query.foldl emplaceParam params) :
    e ∈ params ∨ ∃ param ∈ query, e.1 ⊆ param ∧ e.2 ⊆ param := by
  induction query generalizing params with
  | nil => exact Or.inl h
  | cons param query ih =>
    rcases ih h with he | ⟨param', hmem, hsub⟩
    · rcases mem_emplaceParam he with he | hsub
      · exact Or.inl he
      · exact Or.inr ⟨param, List.mem_cons_self, hsub⟩
    · exact Or.inr ⟨param', List.mem_cons_of_mem _ hmem, hsub⟩

/-- **What `split_target` cuts out** of the target. -/
theorem subset_of_splitTarget (target : Bytes) : (splitTarget target).1 ⊆ target ∧
    ∀ e ∈ (splitTarget target).2, e.1 ⊆ target ∧ e.2 ⊆ target := by
  rw [splitTarget]
  cases target.idxOf? 0x3F with
  | none => exact ⟨List.Subset.refl _, fun e he => absurd he List.not_mem_nil⟩
  | some qm =>
    refine ⟨List.take_subset _ _, fun e he => ?_⟩
    rcases mem_foldl_emplaceParam he with he | ⟨param, hmem, hkey, hvalue⟩
    · exact absurd he List.not_mem_nil
    · have hparam : param ⊆ target :=
        List.Subset.trans (subset_of_mem_splitOn hmem) (List.drop_subset _ _)
      exact ⟨List.Subset.trans hkey hparam, List.Subset.trans hvalue hparam⟩

/-! ### The header lines -/

theorem trim_subset (s : Bytes) : trim s ⊆ s :=
  List.Subset.trans (List.rdropWhile_prefix _ _).subset (List.dropWhile_subset _)

theorem dropCr_subset (line : Bytes) : dropCr line ⊆ line := by
  rw [dropCr]
  split_ifs
  · exact List.dropLast_subset line
  · exact List.Subset.refl line

/-- An assignment keeps what holds of all names and values. -/
theorem forall_mem_entries_set {p : Bytes → Prop} {h : Headers} {key value : Bytes}
    (hall : ∀ e ∈ h.entries, p e.1 ∧ p e.2) (hkey : p key) (hvalue : p value) :
    ∀ e ∈ (h.set key value).entries, p e.1 ∧ p e.2 := by
  intro e he
  rw [Headers.set] at he
  split_ifs at he
  · obtain ⟨e', he', rfl⟩ := List.mem_map.mp he
    split_ifs
    · exact ⟨(hall e' he').1, hvalue⟩
    · exact hall e' he'
  · rcases List.mem_append.mp he with he | he
    · exact hall e he
    · obtain rfl := List.mem_singleton.mp he
      exact ⟨hkey, hvalue⟩

/-- **Names and values** come from single lines. -/
theorem noLf_parseHeaderLines {lines : List Bytes} (hlines : ∀ line ∈ lines, 0x0A ∉ line)
    {headers : Headers} (hall : ∀ e ∈ headers.entries, 0x0A ∉ e.1 ∧ 0x0A ∉ e.2) :
    ∀ e ∈ (parseHeaderLines lines headers).entries, 0x0A ∉ e.1 ∧ 0x0A ∉ e.2 := by
  induction lines generalizing headers with
  | nil => exact hall
  | cons line lines ih =>
    obtain ⟨hline, hlines⟩ := List.forall_mem_cons.mp hlines
    rw [parseHeaderLines]
    dsimp only
    split_ifs
    · exact hall
    · cases hcolon : (dropCr line).idxOf? 0x3A with
      | none => exact ih hlines hall
      | some col =>
        refine ih hlines (forall_mem_entries_set (p := fun s => 0x0A ∉ s) hall ?_ ?_)
        · exact fun hmem => hline (dropCr_subset line (List.take_subset _ _ (trim_subset _ hmem)))
        · exact fun hmem => hline (dropCr_subset line (List.drop_subset _ _ (trim_subset _ hmem)))

/-- What a parsed request holds. -/
structure Reflectable (req : Request) : Prop where
  target : NoSpace req.target
  path : NoSpace req.path
  version : NoSpace req.version
  queryParams : ∀ e ∈ req.queryParams, NoSpace e.1 ∧ NoSpace e.2
  headers : ∀ e ∈ req.headers.entries, 0x0A ∉ e.1 ∧ 0x0A ∉ e.2

theorem noLf_of_mem_getlines {data line : Bytes} (h : line ∈ getlines data) : 0x0A ∉ line := by
  rw [getlines] at h
  split_ifs at h
  · exact not_mem_of_mem_splitOn (List.dropLast_subset _ h)
  · exact not_mem_of_mem_splitOn h

/-- **Every parsed request** has no white space in its line and no LF in its headers. -/
theorem reflectable_parseHttpRequest (data : Bytes) : Reflectable (parseHttpRequest data) := by
  obtain ⟨htarget, hversion⟩ := noSpace_parseFirstLine (dropCr ((getlines data).headD []))
  obtain ⟨hpath, hparams⟩ := subset_of_splitTarget
    (parseFirstLine (dropCr ((getlines data).headD []))).2.1
  refine ⟨htarget, htarget.mono hpath, hversion, fun e he => ?_, ?_⟩
  · obtain ⟨hkey, hvalue⟩ := hparams e he
    exact ⟨htarget.mono hkey, htarget.mono hvalue⟩
  · refine noLf_parseHeaderLines (fun line hline => ?_) fun e he => absurd he List.not_mem_nil
    exact noLf_of_mem_getlines (List.mem_of_mem_tail hline)

/-! ### The head of a response -/

/-- A string that a parsed request holds. -/
inductive Copied : Bytes → Prop
  | target (data : Bytes) : Copied (parseHttpRequest data).target
  | path (data : Bytes) : Copied (parseHttpRequest data).path
  | version (data : Bytes) : Copied (parseHttpRequest data).version
  | queryKey {data : Bytes} {e : Bytes × Bytes} (he : e ∈ (parseHttpRequest data).queryParams) :
      Copied e.1
  | queryValue {data : Bytes} {e : Bytes × Bytes} (he : e ∈ (parseHttpRequest data).queryParams) :
      Copied e.2
  | headerName {data : Bytes} {e : Bytes × Bytes}
      (he : e ∈ (parseHttpRequest data).headers.entries) : Copied e.1
  | headerValue {data : Bytes} {e : Bytes × Bytes}
      (he : e ∈ (parseHttpRequest data).headers.entries) : Copied e.2

theorem Copied.noLf {s : Bytes} (h : Copied s) : 0x0A ∉ s := by
  cases h with
  | target data => exact (reflectable_parseHttpRequest data).target.noLf
  | path data => exact (reflectable_parseHttpRequest data).path.noLf
  | version data => exact (reflectable_parseHttpRequest data).version.noLf
  | queryKey he => exact ((reflectable_parseHttpRequest _).queryParams _ he).1.noLf
  | queryValue he => exact ((reflectable_parseHttpRequest _).queryParams _ he).2.noLf
  | headerName he => exact ((reflectable_parseHttpRequest _).headers _ he).1
  | headerValue he => exact ((reflectable_parseHttpRequest _).headers _ he).2

/-- The names and values are copied from requests, or are texts without LF, as the names that the
code sets are. -/
structure Reflects (r : Response) : Prop where
  version : r.version = bytes "HTTP/1.1"
  entries : ∀ e ∈ r.headers.entries, (Copied e.1 ∨ 0x0A ∉ e.1) ∧ (Copied e.2 ∨ 0x0A ∉ e.2)

theorem Reflects.setHeader {r : Response} (hr : Reflects r) {key value : Bytes}
    (hkey : Copied key ∨ 0x0A ∉ key) (hvalue : Copied value) : Reflects (r.setHeader key value) :=
  ⟨hr.version, forall_mem_entries_set (p := fun s => Copied s ∨ 0x0A ∉ s) hr.entries hkey
    (Or.inl hvalue)⟩

theorem Reflects.setRedirect {r : Response} (hr : Reflects r) {url : Bytes} (hurl : Copied url)
    (st : ℤ) : Reflects (r.setRedirect url st) :=
  ⟨hr.version, forall_mem_entries_set (p := fun s => Copied s ∨ 0x0A ∉ s) hr.entries
    (Or.inr (by decide)) (Or.inl hurl)⟩

theorem noLf_intText (n : ℤ) : 0x0A ∉ bytes (toString n) := by
  have hdecimal : ∀ m : ℕ, 0x0A ∉ decimal m := fun m hmem =>
    absurd (isDigit_of_mem_decimal hmem) (by decide)
  cases n with
  | ofNat m => exact hdecimal m
  | negSucc m =>
    have htext : bytes (toString (Int.negSucc m)) = 0x2D :: decimal (m + 1) := by
      show bytes ("-" ++ toString (m + 1)) = _
      rw [bytes, String.toList_append, List.map_append]
      rfl
    rw [htext, List.mem_cons, not_or]
    exact ⟨by decide, hdecimal (m + 1)⟩

theorem noLf_statusLine {r : Response} (hr : r.version = bytes "HTTP/1.1") :
    0x0A ∉ r.statusLine := by
  have hreason : 0x0A ∉ Response.reasonPhrase r.status := by
    rw [Response.reasonPhrase]
    split_ifs <;> decide
  rw [Response.statusLine, hr]
  simp only [List.mem_append, not_or]
  exact ⟨⟨⟨⟨by decide, by decide⟩, noLf_intText r.status⟩, by decide⟩, hreason⟩

theorem count_lf_joinedLines {lines : List Bytes} (h : ∀ line ∈ lines, 0x0A ∉ line) :
    (joinedLines lines).count 0x0A = lines.length := by
  induction lines with
  | nil => rfl
  | cons line lines ih =>
    obtain ⟨hline, hlines⟩ := List.forall_mem_cons.mp h
    have hjoined : joinedLines (line :: lines) = line ++ crlf ++ joinedLines lines := by
      rw [joinedLines, List.map_cons, List.flatten_cons]
      rfl
    have hcrlf : crlf.count 0x0A = 1 := rfl
    rw [hjoined, List.count_append, List.count_append, List.count_eq_zero_of_not_mem hline, hcrlf,
      ih hlines, List.length_cons]
    omega

/-- **Reflecting request data cannot split a head**: the head of a response whose names and values
are copied from requests has one line for each header, and no empty line but its last. -/
theorem reflected_head : (∀ data, Reflectable (parseHttpRequest data)) ∧
    (∀ r key value, Reflects r → Copied key ∨ 0x0A ∉ key → Copied value →
      Reflects (r.setHeader key value)) ∧
    (∀ r url st, Reflects r → Copied url → Reflects (r.setRedirect url st)) ∧
    ∀ (o : HeaderOrder) (r : Response), Reflects r →
      (r.toStringHeader o).count 0x0A = r.headers.entries.length + 2 ∧
      ∃ lines, (r.toStringHeader o).splitOn 0x0A = lines ++ [[0x0D], []] ∧
        ∀ line ∈ lines, dropCr line ≠ [] := by
  refine ⟨reflectable_parseHttpRequest, fun r key value hr hkey hvalue => hr.setHeader hkey hvalue,
    fun r url st hr hurl => hr.setRedirect hurl st, fun o r hr => ?_⟩
  have hperm := o.perm r.headers.entries
  have hlines : ∀ line ∈ (r.head o).lines, 0x0A ∉ line := by
    refine List.forall_mem_cons.mpr ⟨noLf_statusLine hr.version, noLf_fieldLine ?_ ?_⟩
    · exact fun e he => (hr.entries e (hperm.mem_iff.mp he)).1.elim Copied.noLf id
    · exact fun e he => (hr.entries e (hperm.mem_iff.mp he)).2.elim Copied.noLf id
  have hne : ∀ line ∈ (r.head o).lines, line ≠ [] := by
    refine List.forall_mem_cons.mpr ⟨?_, fieldLine_ne_nil⟩
    show r.version ++ _ ++ _ ++ _ ++ _ ≠ []
    rw [hr.version]
    exact List.cons_ne_nil _ _
  rw [Response.toStringHeader, Head.text_eq_headerText, headerText_eq_joinedLines]
  constructor
  · rw [count_lf_joinedLines (noLf_concat_nil hlines), List.length_append, Head.lines,
      List.length_cons, List.length_map, Response.head, hperm.length_eq]
    rfl
  · refine ⟨(r.head o).lines.map fun line => line ++ [0x0D], ?_, fun line hline => ?_⟩
    · rw [splitOn_joinedLines (noLf_concat_nil hlines), List.map_append, List.append_assoc]
      rfl
    · obtain ⟨line', hline', rfl⟩ := List.mem_map.mp hline
      rw [dropCr_concat]
      exact hne line' hline'

/-- A redirection to the target of a request that has a CR in it. -/
def redirectToTarget : Response :=
  Response.setRedirect {} (parseHttpRequest (bytes "GET /a\r/b HTTP/1.1\r\n\r\n")).target

theorem reflected_head_redirect :
    (redirectToTarget.toStringHeader ⟨id, fun _ => .refl _⟩).count 0x0A = 3 := by
  have hempty : Reflects {} := ⟨rfl, fun e he => absurd he List.not_mem_nil⟩
  exact (reflected_head.2.2.2 _ redirectToTarget
    (reflected_head.2.2.1 {} _ 302 hempty (.target _))).1

end WebSocketsLib
