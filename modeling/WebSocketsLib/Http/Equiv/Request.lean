import WebSocketsLib.Http.Equiv.Lines
import WebSocketsLib.Http.Equiv.Response
import WebSocketsLib.Http.RequestText

/-!
# Parsing a request that has been written

`parseHttpRequest_text`: the parser reads the words of the request line and the fields of a head
back, the values without the white space around them.  `contentLength_of_mem`: a `Content-Length`
that is the decimal text of a number is that number.
-/

namespace WebSocketsLib

/-! ### Words -/

/-- A word: not empty, and without white space. -/
structure IsWord (w : Bytes) : Prop where
  ne_nil : w ≠ []
  noSpace : ∀ c ∈ w, isSpace c = false

theorem any_isSpace_eq_false_iff {w : Bytes} :
    w.any isSpace = false ↔ ∀ c ∈ w, isSpace c = false := by
  simp

instance (w : Bytes) : Decidable (IsWord w) :=
  decidable_of_iff (w ≠ [] ∧ w.any isSpace = false)
    ⟨fun h => ⟨h.1, any_isSpace_eq_false_iff.mp h.2⟩,
      fun h => ⟨h.ne_nil, any_isSpace_eq_false_iff.mpr h.noSpace⟩⟩

theorem IsWord.not_mem {w : Bytes} (hw : IsWord w) {c : UInt8} (hc : isSpace c = true) : c ∉ w := by
  intro hmem
  rw [hw.noSpace c hmem] at hc
  cases hc

/-- `stream >> word` at the beginning of a word. -/
theorem extractWord_append {w rest : Bytes} (hw : IsWord w)
    (hrest : ∀ c ∈ rest.head?, isSpace c = true) : extractWord (w ++ rest) = some (w, rest) := by
  have hdrop : (w ++ rest).dropWhile isSpace = w ++ rest := by
    cases w with
    | nil => exact absurd rfl hw.ne_nil
    | cons c w =>
      rw [List.cons_append, List.dropWhile_cons_of_neg]
      rw [hw.noSpace c (List.mem_cons_self ..)]
      exact Bool.false_ne_true
  have hall : ∀ c ∈ w, (!isSpace c) = true := by
    intro c hc
    rw [hw.noSpace c hc]
    rfl
  have hne : w ++ rest ≠ [] := by
    intro hnil
    exact hw.ne_nil (List.append_eq_nil_iff.mp hnil).1
  have hstop : (rest.takeWhile fun c => !isSpace c) = [] ∧
      (rest.dropWhile fun c => !isSpace c) = rest := by
    cases rest with
    | nil => exact ⟨rfl, rfl⟩
    | cons c rest =>
      have hc : (!isSpace c) = false := by
        rw [hrest c rfl]
        rfl
      rw [List.takeWhile_cons, List.dropWhile_cons, hc]
      exact ⟨rfl, rfl⟩
  rw [extractWord, hdrop]
  show (if w ++ rest = [] then none else some (_, _)) = _
  rw [if_neg hne, List.takeWhile_append_of_pos hall, List.dropWhile_append_of_pos hall, hstop.1,
    hstop.2, List.append_nil]

/-- White space before the word. -/
theorem extractWord_space (s : Bytes) : extractWord (bytes " " ++ s) = extractWord s := rfl

/-- **The request line** gives its words back. -/
theorem parseFirstLine_words {m t v : Bytes} (hm : IsWord m) (ht : IsWord t) (hv : IsWord v) :
    parseFirstLine (m ++ bytes " " ++ t ++ bytes " " ++ v) = (m, t, v) := by
  have hspace : ∀ s, ∀ c ∈ (bytes " " ++ s).head?, isSpace c = true := by
    intro s c hc
    cases hc
    rfl
  have hversion : extractWord (bytes " " ++ v) = some (v, []) := by
    have hend : extractWord (v ++ []) = some (v, []) :=
      extractWord_append hv fun c hc => by cases hc
    rwa [List.append_nil] at hend
  have htarget : extractWord (bytes " " ++ (t ++ (bytes " " ++ v))) = some (t, bytes " " ++ v) := by
    rw [extractWord_space, extractWord_append ht (hspace v)]
  rw [List.append_assoc, List.append_assoc, List.append_assoc, parseFirstLine,
    extractWord_append hm (hspace _)]
  simp only [htarget, hversion]

theorem isWord_methodStr (m : Method) : IsWord (methodStr m) := by
  cases m with
  | get => decide
  | post => decide
  | put => decide
  | delete => decide
  | patch => decide
  | head => decide
  | options => decide
  | unknown => decide

theorem methodEnum_methodStr (m : Method) : methodEnum (methodStr m) = m := by
  cases m with
  | get => rfl
  | post => rfl
  | put => rfl
  | delete => rfl
  | patch => rfl
  | head => rfl
  | options => rfl
  | unknown => rfl

/-! ### Fields -/

/-- No white space at either end. -/
structure Trimmed (s : Bytes) : Prop where
  head : ∀ c ∈ s.head?, isSpace c = false
  last : ∀ c ∈ s.getLast?, isSpace c = false

theorem option_any_isSpace_eq_false_iff {o : Option UInt8} :
    o.any isSpace = false ↔ ∀ c ∈ o, isSpace c = false := by
  cases o with
  | none => simp
  | some c => simp

instance (s : Bytes) : Decidable (Trimmed s) :=
  decidable_of_iff (s.head?.any isSpace = false ∧ s.getLast?.any isSpace = false)
    ⟨fun h => ⟨option_any_isSpace_eq_false_iff.mp h.1, option_any_isSpace_eq_false_iff.mp h.2⟩,
      fun h => ⟨option_any_isSpace_eq_false_iff.mpr h.head,
        option_any_isSpace_eq_false_iff.mpr h.last⟩⟩

theorem Trimmed.of_noSpace {s : Bytes} (h : ∀ c ∈ s, isSpace c = false) : Trimmed s where
  head := fun c hc => h c (List.mem_of_mem_head? hc)
  last := fun c hc => h c (List.mem_of_getLast? hc)

theorem Trimmed.ltrim_append {s : Bytes} (h : Trimmed s) (hne : s ≠ []) (t : Bytes) :
    ltrim (s ++ t) = s ++ t := by
  obtain ⟨c, s, rfl⟩ := List.exists_cons_of_ne_nil hne
  rw [ltrim, List.cons_append, List.dropWhile_cons_of_neg]
  rw [h.head c rfl]
  exact Bool.false_ne_true

theorem Trimmed.rtrim_eq {s : Bytes} (h : Trimmed s) : rtrim s = s := by
  rw [rtrim, List.rdropWhile_eq_self_iff]
  intro hne
  rw [h.last _ (List.getLast?_eq_some_getLast hne)]
  exact Bool.false_ne_true

theorem Trimmed.trim_eq {s : Bytes} (h : Trimmed s) : trim s = s := by
  by_cases hne : s = []
  · rw [hne]
    rfl
  · have hleft := h.ltrim_append hne []
    rw [List.append_nil] at hleft
    rw [trim, hleft, h.rtrim_eq]

theorem trimmed_trim (s : Bytes) : Trimmed (trim s) where
  head := by
    intro c hc
    obtain ⟨rest, hrest⟩ : trim s <+: ltrim s := List.rdropWhile_prefix _ _
    have hhead : (ltrim s).head? = some c := by
      rw [← hrest, List.head?_append, hc]
      rfl
    have hnot := List.head?_dropWhile_not isSpace s
    rw [← ltrim, hhead] at hnot
    simpa using hnot
  last := by
    intro c hc
    have hne : trim s ≠ [] := by
      rintro hnil
      rw [hnil] at hc
      cases hc
    have hnot := List.rdropWhile_last_not isSpace (ltrim s) hne
    rw [List.getLast?_eq_some_getLast hne] at hc
    obtain rfl := Option.some.inj hc
    exact Bool.not_eq_true _ ▸ hnot

/-- The second text is the first one without the white space around it. -/
def TrimsTo (s t : Bytes) : Prop :=
  Trimmed t ∧ ∃ front back, s = front ++ t ++ back ∧ ∀ c ∈ front ++ back, isSpace c = true

theorem trimsTo_trim (s : Bytes) : TrimsTo s (trim s) := by
  refine ⟨trimmed_trim s, s.takeWhile isSpace, (ltrim s).rtakeWhile isSpace, ?_, fun c hc => ?_⟩
  · rw [List.append_assoc, trim, rtrim, List.rdropWhile_append_rtakeWhile, ltrim,
      List.takeWhile_append_dropWhile]
  · rcases List.mem_append.mp hc with hc | hc
    · exact List.mem_takeWhile_imp hc
    · exact List.mem_rtakeWhile_imp hc

/-- **`trim`** takes off the white space at the ends and nothing else. -/
theorem trimsTo_iff {s t : Bytes} : TrimsTo s t ↔ trim s = t := by
  constructor
  · rintro ⟨htrimmed, front, back, rfl, hspace⟩
    obtain ⟨hfront, hback⟩ := List.forall_mem_append.mp hspace
    have hright : rtrim (t ++ back) = t := by
      rw [rtrim, List.rdropWhile, List.reverse_append,
        List.dropWhile_append_of_pos fun c hc => hback c (List.mem_reverse.mp hc)]
      exact htrimmed.rtrim_eq
    rw [List.append_assoc, trim, ltrim, List.dropWhile_append_of_pos hfront]
    -- a text of white space only is taken off from the left, with what is behind it
    by_cases hne : t = []
    · rw [hne, List.nil_append, List.dropWhile_eq_nil_iff.mpr hback]
      rfl
    · exact (congrArg rtrim (htrimmed.ltrim_append hne back)).trans hright
  · rintro rfl
    exact trimsTo_trim s

/-- A name that a header line can carry. -/
structure IsHeaderName (name : Bytes) : Prop where
  noColon : 0x3A ∉ name
  noLf : 0x0A ∉ name
  trimmed : Trimmed name

instance (name : Bytes) : Decidable (IsHeaderName name) :=
  decidable_of_iff (0x3A ∉ name ∧ 0x0A ∉ name ∧ Trimmed name)
    ⟨fun h => ⟨h.1, h.2.1, h.2.2⟩, fun h => ⟨h.noColon, h.noLf, h.trimmed⟩⟩

theorem idxOf?_append_cons {s : Bytes} {c : UInt8} (h : c ∉ s) (t : Bytes) :
    (s ++ c :: t).idxOf? c = some s.length := by
  have hnone : s.findIdx? (fun x => x == c) = none := List.idxOf?_eq_none_iff.mpr h
  rw [List.idxOf?, List.findIdx?_append, hnone, List.findIdx?_cons, beq_self_eq_true, if_pos rfl]
  simp

/-- **One header line** sets its field. -/
theorem parseHeaderLines_field {e : Bytes × Bytes} (he : IsHeaderName e.1) (lines : List Bytes)
    (headers : Headers) :
    parseHeaderLines ((fieldLine e ++ [0x0D]) :: lines) headers
      = parseHeaderLines lines (headers.set e.1 (trim e.2)) := by
  have hline : fieldLine e = e.1 ++ 0x3A :: 0x20 :: e.2 := by
    simp [fieldLine, bytes]
  have hcolon : (fieldLine e).idxOf? 0x3A = some e.1.length := by
    rw [hline, idxOf?_append_cons he.noColon]
  have hne : fieldLine e ≠ [] := by
    rw [hline]
    simp
  rw [parseHeaderLines, dropCr_concat]
  show (if fieldLine e = [] then _ else _) = _
  rw [if_neg hne, hcolon]
  -- the space after the colon is skipped
  have hkey : (fieldLine e).take e.1.length = e.1 := by
    rw [hline, List.take_left]
  have hafter : (fieldLine e).drop (e.1.length + 1) = 0x20 :: e.2 := by
    rw [hline, ← List.drop_drop, List.drop_left]
    rfl
  have hvalue : (fieldLine e).drop (e.1.length + 1 + 1) = e.2 := by
    rw [← List.drop_drop, hafter]
    rfl
  have hspace : ((fieldLine e).drop (e.1.length + 1)).head? = some 0x20 := by
    rw [hafter]
    rfl
  simp only [hkey, hspace, if_true, hvalue, he.trimmed.trim_eq]

/-- The header lines and the empty line. -/
theorem parseHeaderLines_fields {entries : List (Bytes × Bytes)}
    (hnames : ∀ e ∈ entries, IsHeaderName e.1) (headers : Headers) :
    parseHeaderLines (entries.map (fun e => fieldLine e ++ [0x0D]) ++ [[0x0D]]) headers
      = entries.foldl (fun h e => h.set e.1 (trim e.2)) headers := by
  induction entries generalizing headers with
  | nil => rfl
  | cons e entries ih =>
    rw [List.map_cons, List.cons_append, parseHeaderLines_field (hnames e (List.mem_cons_self ..)),
      ih (fun e' he' => hnames e' (List.mem_cons_of_mem _ he')), List.foldl_cons]

/-- Fields with different names are added one after another. -/
theorem entries_foldl_set {entries : List (Bytes × Bytes)} {headers : Headers}
    (hdistinct : ((headers.entries ++ entries).map fun e => lower e.1).Nodup) :
    (entries.foldl (fun h e => h.set e.1 (trim e.2)) headers).entries
      = headers.entries ++ entries.map fun e => (e.1, trim e.2) := by
  induction entries generalizing headers with
  | nil => rw [List.foldl_nil, List.map_nil, List.append_nil]
  | cons e entries ih =>
    have hnew : headers.contains e.1 = false := by
      rw [List.map_append, List.nodup_append] at hdistinct
      rw [Headers.contains, List.any_eq_false]
      intro e' he' heq
      exact hdistinct.2.2 _ (List.mem_map_of_mem he') _ (List.mem_cons_self ..)
        (caseInsensitiveEqual_iff.mp heq)
    have hentries := Headers.entries_set_of_new hnew (trim e.2)
    rw [List.foldl_cons, ih, hentries, List.append_assoc]
    · rfl
    · rw [hentries]
      simpa using hdistinct

/-! ### The parser -/

/-- The request that a head denotes. -/
def requestOf (method target version : Bytes) (headers : Headers) : Request where
  method := methodEnum method
  path := (splitTarget target).1
  version := version
  target := target
  headers := headers
  queryParams := (splitTarget target).2

section

variable {m t v : Bytes} {entries : List (Bytes × Bytes)}

/-- The line `m t v`. -/
def wordsLine (m t v : Bytes) : Bytes :=
  m ++ bytes " " ++ t ++ bytes " " ++ v

theorem noLf_wordsLine (hm : IsWord m) (ht : IsWord t) (hv : IsWord v) :
    0x0A ∉ wordsLine m t v := by
  have hspace : (0x0A : UInt8) ∉ bytes " " := by decide
  have hlf : isSpace 0x0A = true := rfl
  simp only [wordsLine, List.mem_append, not_or]
  exact ⟨⟨⟨⟨hm.not_mem hlf, hspace⟩, ht.not_mem hlf⟩, hspace⟩, hv.not_mem hlf⟩

theorem noLf_fieldLine (hnames : ∀ e ∈ entries, 0x0A ∉ e.1)
    (hvalues : ∀ e ∈ entries, 0x0A ∉ e.2) : ∀ l ∈ entries.map fieldLine, 0x0A ∉ l := by
  intro l hl
  obtain ⟨e, he, rfl⟩ := List.mem_map.mp hl
  simp only [fieldLine, List.mem_append, not_or]
  exact ⟨⟨hnames e he, by decide⟩, hvalues e he⟩

theorem fieldLine_ne_nil : ∀ l ∈ entries.map fieldLine, l ≠ [] := by
  intro l hl
  obtain ⟨e, -, rfl⟩ := List.mem_map.mp hl
  simp [fieldLine, bytes]

theorem noLf_wordsLine_fields (hm : IsWord m) (ht : IsWord t) (hv : IsWord v)
    (hnames : ∀ e ∈ entries, IsHeaderName e.1) (hvalues : ∀ e ∈ entries, 0x0A ∉ e.2) :
    ∀ l ∈ wordsLine m t v :: entries.map fieldLine, 0x0A ∉ l :=
  List.forall_mem_cons.mpr
    ⟨noLf_wordsLine hm ht hv, noLf_fieldLine (fun e he => (hnames e he).noLf) hvalues⟩

/-- **The parser** reads a head back, with the values trimmed. -/
theorem parseHttpRequest_text {headers : Headers} (hm : IsWord m) (ht : IsWord t) (hv : IsWord v)
    (hnames : ∀ e ∈ entries, IsHeaderName e.1) (hvalues : ∀ e ∈ entries, 0x0A ∉ e.2)
    (hheaders : headers.entries = entries.map fun e => (e.1, trim e.2)) :
    parseHttpRequest (Head.text { startLine := wordsLine m t v, entries })
      = requestOf m t v headers := by
  have hgetlines := getlines_headerText (noLf_wordsLine_fields hm ht hv hnames hvalues)
  have hdistinct : ((Headers.empty.entries ++ entries).map fun e => lower e.1).Nodup := by
    have hnodup := headers.distinct
    rwa [hheaders, List.map_map] at hnodup
  have hparsed : parseHeaderLines (entries.map (fun e => fieldLine e ++ [0x0D]) ++ [[0x0D]])
      Headers.empty = headers := by
    rw [parseHeaderLines_fields hnames]
    have hentries := entries_foldl_set hdistinct
    cases headers
    cases hfold : entries.foldl (fun h e => h.set e.1 (trim e.2)) Headers.empty
    rw [hfold] at hentries
    simp only at hheaders hentries
    simp only [Headers.mk.injEq, hheaders, hentries]
    rfl
  rw [Head.text_eq_headerText, Head.lines, parseHttpRequest, hgetlines]
  rw [List.map_cons, List.cons_append, List.headD_cons, List.tail_cons, List.map_map, dropCr_concat,
    wordsLine, parseFirstLine_words hm ht hv]
  show Request.mk .. = _
  rw [← hparsed]
  rfl

/-- The head ends where it is found to end. -/
theorem findEnd_text (hm : IsWord m) (ht : IsWord t) (hv : IsWord v)
    (hnames : ∀ e ∈ entries, IsHeaderName e.1) (hvalues : ∀ e ∈ entries, 0x0A ∉ e.2) :
    Chunks.findEnd crlfcrlf (Head.text { startLine := wordsLine m t v, entries })
      = some (Head.text { startLine := wordsLine m t v, entries }).length := by
  rw [Head.text_eq_headerText]
  exact findEnd_headerText (noLf_wordsLine_fields hm ht hv hnames hvalues) fieldLine_ne_nil

end

/-! ### The announced length -/

theorem isDigit_of_mem_decimal {n : ℕ} {c : UInt8} (hc : c ∈ decimal n) : isDigit c = true := by
  rw [decimal, bytes, Nat.toString_eq_repr, Nat.toList_repr] at hc
  obtain ⟨d, hd, rfl⟩ := List.mem_map.mp hc
  have hdigit : d.isDigit = true := Nat.isDigit_of_mem_toDigits (by decide) (by decide) hd
  simp only [Char.isDigit, Bool.and_eq_true, decide_eq_true_eq, UInt32.le_iff_toNat_le] at hdigit
  have hlo : 48 ≤ d.toNat := hdigit.1
  have hhi : d.toNat ≤ 57 := hdigit.2
  simp only [isDigit, Bool.and_eq_true, decide_eq_true_eq, UInt8.le_iff_toNat_le,
    UInt8.toNat_ofNat', UInt8.reduceToNat]
  omega

theorem decimal_ne_nil (n : ℕ) : decimal n ≠ [] := by
  rw [decimal, bytes, Nat.toString_eq_repr, Nat.toList_repr]
  exact fun h => Nat.toDigits_ne_nil (List.map_eq_nil_iff.mp h)

/-- A digit is neither white space nor a sign. -/
theorem isDigit_ne {c : UInt8} (hc : isDigit c = true) :
    isSpace c = false ∧ c ≠ 0x2D ∧ c ≠ 0x2B := by
  have hlo : 0x30 ≤ c := by
    rw [isDigit, Bool.and_eq_true, decide_eq_true_eq] at hc
    exact hc.1
  refine ⟨?_, ?_, ?_⟩
  · rw [isSpace, Bool.or_eq_false_iff, Bool.and_eq_false_iff]
    refine ⟨beq_false_of_ne ?_, Or.inr (decide_eq_false ?_)⟩
    · rintro rfl
      exact absurd hlo (by decide)
    · intro hle
      exact absurd (UInt8.le_trans hlo hle) (by decide)
  · rintro rfl
    exact absurd hlo (by decide)
  · rintro rfl
    exact absurd hlo (by decide)

/-- **`std::stoull`** uses all of a decimal text. -/
theorem stoull_decimal {n : ℕ} (hn : n < UInt64.size) :
    stoull (decimal n) = some (n, (decimal n).length) := by
  have hdigits : ∀ c ∈ decimal n, isDigit c = true := fun c hc => isDigit_of_mem_decimal hc
  have hall : (decimal n).takeWhile isDigit = decimal n := List.takeWhile_eq_self_iff.mpr hdigits
  obtain ⟨c, rest, hcons⟩ := List.exists_cons_of_ne_nil (decimal_ne_nil n)
  obtain ⟨hspace, hminus, hplus⟩ :=
    isDigit_ne (hdigits c (by rw [hcons]; exact List.mem_cons_self ..))
  have hspaces : (decimal n).takeWhile isSpace = [] := by
    rw [hcons, List.takeWhile_cons, hspace]
    rfl
  have hrest : (decimal n).dropWhile isSpace = decimal n := by
    rw [hcons, List.dropWhile_cons, hspace]
    rfl
  have hno_minus : ¬ (decimal n).head? = some 0x2D := by
    rw [hcons]
    exact fun h => hminus (Option.some.inj h)
  have hno_plus : ¬ (decimal n).head? = some 0x2B := by
    rw [hcons]
    exact fun h => hplus (Option.some.inj h)
  have hno_sign : ¬ ((decimal n).head? = some 0x2D ∨ (decimal n).head? = some 0x2B) :=
    not_or.mpr ⟨hno_minus, hno_plus⟩
  have hok : ¬ (decimal n = [] ∨ n ≥ UInt64.size) :=
    not_or.mpr ⟨decimal_ne_nil n, Nat.not_le.mpr hn⟩
  rw [stoull]
  simp only [hspaces, hrest, if_neg hno_sign, List.drop_zero, hall, digitsValue_decimal,
    if_neg hok, if_neg hno_minus, List.length_nil, Nat.zero_add]

namespace Headers

/-- An entry is found under its name, in any spelling. -/
theorem find?_of_mem {h : Headers} {e : Bytes × Bytes} {key : Bytes} (he : e ∈ h.entries)
    (hkey : lower e.1 = lower key) : h.find? key = some e.2 := by
  have hsome : (h.entries.find? fun e => caseInsensitiveEqual e.1 key).isSome := by
    rw [List.find?_isSome]
    exact ⟨e, he, caseInsensitiveEqual_iff.mpr hkey⟩
  obtain ⟨e', hfind⟩ := Option.isSome_iff_exists.mp hsome
  have hname := List.find?_some hfind
  have hsame : lower e'.1 = lower e.1 := (caseInsensitiveEqual_iff.mp hname).trans hkey.symm
  -- no other entry has this name
  obtain rfl : e' = e :=
    List.inj_on_of_nodup_map h.distinct (List.mem_of_find?_eq_some hfind) he hsame
  rw [find?, hfind]
  rfl

theorem find?_eq_none {h : Headers} {key : Bytes} (hno : h.contains key = false) :
    h.find? key = none := by
  rw [contains, List.any_eq_false] at hno
  rw [find?, List.find?_eq_none.mpr hno]
  rfl

theorem find?_replaced_of_ne {key name : Bytes} (hne : ¬caseInsensitiveEqual key name = true)
    (value : Bytes) (entries : List (Bytes × Bytes)) :
    ((replaced entries key value).find? fun e => caseInsensitiveEqual e.1 name)
      = entries.find? fun e => caseInsensitiveEqual e.1 name := by
  induction entries with
  | nil => rfl
  | cons e entries ih =>
    rw [replaced, List.map_cons, ← replaced, List.find?_cons, List.find?_cons, ih]
    by_cases hkey : caseInsensitiveEqual e.1 key = true
    · have hname : caseInsensitiveEqual e.1 name = false := by
        rw [← Bool.not_eq_true, caseInsensitiveEqual_iff]
        rw [caseInsensitiveEqual_iff] at hne hkey
        rwa [hkey]
      rw [if_pos hkey]
      dsimp only
      rw [hname]
    · rw [if_neg hkey]

/-- **What is stored** under a name after an assignment. -/
theorem find?_set (h : Headers) (key value name : Bytes) : (h.set key value).find? name
    = if caseInsensitiveEqual key name = true then some value else h.find? name := by
  split_ifs with hname
  · obtain ⟨key', hmem, hkey'⟩ : ∃ key', (key', value) ∈ (h.set key value).entries ∧
        lower key' = lower key := by
      unfold set
      split_ifs with hkey
      · rw [contains, List.any_eq_true] at hkey
        obtain ⟨e, he, hkey⟩ := hkey
        refine ⟨e.1, List.mem_map.mpr ⟨e, he, if_pos hkey⟩, caseInsensitiveEqual_iff.mp hkey⟩
      · exact ⟨key, List.mem_append_right _ (List.mem_singleton_self _), rfl⟩
    exact find?_of_mem hmem (hkey'.trans (caseInsensitiveEqual_iff.mp hname))
  · unfold set find?
    split_ifs with hkey
    · rw [find?_replaced_of_ne hname]
    · rw [List.find?_append, List.find?_singleton, if_neg hname, Option.or_none]

/-- An announced length is read back. -/
theorem contentLength_of_mem {h : Headers} {e : Bytes × Bytes} {n : ℕ} (hn : n < UInt64.size)
    (he : e ∈ h.entries) (hkey : lower e.1 = lower (bytes "content-length"))
    (hvalue : e.2 = decimal n) : h.contentLength = some n := by
  have hget : h.getHeaderValue (bytes "content-length") = decimal n := by
    rw [getHeaderValue, find?_of_mem he hkey, hvalue]
    rfl
  rw [contentLength, hget]
  simp only [decimal_ne_nil, if_false, stoull_decimal hn]
  exact if_neg (not_not_intro rfl)

theorem contentLength_eq_none {h : Headers} (hno : h.contains (bytes "content-length") = false) :
    h.contentLength = none := by
  have hget : h.getHeaderValue (bytes "content-length") = [] := by
    rw [getHeaderValue, find?_eq_none hno]
    rfl
  rw [contentLength, hget]
  exact if_pos rfl

end Headers

end WebSocketsLib
