import WebSocketsLib.Server.Equiv.ContentLength

/-!
# Where a head ends

`co_read_headers` reads up to the first CRLFCRLF.  `parse_http_request` takes its lines at LF, drops
one CR of each and stops at the first line that is empty then, so that LFLF, LFCRLF and an LF and
CRLF in front of the CRLFCRLF end the headers as well.

`headEndsAgree_iff`: the headers that are stored are those of all lines exactly when no line behind
the first empty one changes what the lines before it say.
-/

namespace WebSocketsLib

/-! ### What the lines say -/

/-- Name and value of a header line: what is before its first colon, and what is behind it. -/
def lineField (line : Bytes) : Option (Bytes × Bytes) :=
  (line.idxOf? 0x3A).map fun col => (trim (line.take col), trim (line.drop (col + 1)))

/-- The value of the last of the lines with a colon that have this name, compared without case. -/
def lastValue (lines : List Bytes) (name : Bytes) : Option Bytes :=
  ((lines.filterMap lineField).reverse.find? fun e => caseInsensitiveEqual e.1 name).map Prod.snd

/-- The lines after the request line, without their line ends. -/
def headLines (data : Bytes) : List Bytes :=
  (getlines data).tail.map dropCr

/-- The lines in front of the first empty one. -/
def linesBefore (data : Bytes) : List Bytes :=
  (headLines data).takeWhile fun line => line ≠ []

/-- The first empty line and the lines behind it. -/
def linesAfter (data : Bytes) : List Bytes :=
  (headLines data).dropWhile fun line => line ≠ []

theorem lastValue_append (xs ys : List Bytes) (name : Bytes) :
    lastValue (xs ++ ys) name = (lastValue ys name).or (lastValue xs name) := by
  rw [lastValue, List.filterMap_append, List.reverse_append, List.find?_append, Option.map_or]
  rfl

theorem lastValue_cons (line : Bytes) (lines : List Bytes) (name : Bytes) :
    lastValue (line :: lines) name = (lastValue lines name).or (lastValue [line] name) :=
  lastValue_append [line] lines name

/-! ### What the parser stores -/

/-- A space behind the colon is white space in front of the value. -/
theorem trim_drop_space {s : Bytes} (h : s.head? = some 0x20) : trim (s.drop 1) = trim s := by
  cases s with
  | nil => nomatch h
  | cons c s =>
    obtain rfl := Option.some.inj h
    rfl

/-- One line of the headers that is not empty. -/
theorem find?_parseHeaderLines_cons {line : Bytes} (hne : dropCr line ≠ []) (lines : List Bytes)
    (headers : Headers) : ∃ headers', parseHeaderLines (line :: lines) headers
        = parseHeaderLines lines headers' ∧
      ∀ name, headers'.find? name = (lastValue [dropCr line] name).or (headers.find? name) := by
  rw [parseHeaderLines]
  dsimp only
  rw [if_neg hne]
  cases hcolon : (dropCr line).idxOf? 0x3A with
  | none =>
    refine ⟨headers, rfl, fun name => ?_⟩
    have hfield : lineField (dropCr line) = none := by
      rw [lineField, hcolon]
      rfl
    rw [lastValue, List.filterMap_cons_none hfield]
    rfl
  | some col =>
    refine ⟨_, rfl, fun name => ?_⟩
    have hvalue : trim ((dropCr line).drop
        (if ((dropCr line).drop (col + 1)).head? = some 0x20 then col + 1 + 1 else col + 1))
        = trim ((dropCr line).drop (col + 1)) := by
      split_ifs with hspace
      · rw [← trim_drop_space hspace, List.drop_drop]
      · rfl
    have hfield : lineField (dropCr line)
        = some (trim ((dropCr line).take col), trim ((dropCr line).drop (col + 1))) := by
      rw [lineField, hcolon]
      rfl
    rw [hvalue, Headers.find?_set, lastValue, List.filterMap_cons_some hfield]
    show _ = (Option.map Prod.snd (List.find? _ [_])).or _
    rw [List.find?_singleton]
    split_ifs
    · rfl
    · rfl

/-- **The headers that are stored** are those of the lines before the first empty one. -/
theorem find?_parseHeaderLines (lines : List Bytes) (headers : Headers) (name : Bytes) :
    (parseHeaderLines lines headers).find? name
      = (lastValue ((lines.map dropCr).takeWhile fun line => line ≠ []) name).or
        (headers.find? name) := by
  induction lines generalizing headers with
  | nil => rfl
  | cons line lines ih =>
    by_cases hnil : dropCr line = []
    · rw [parseHeaderLines, List.map_cons, List.takeWhile_cons_of_neg (by simpa using hnil)]
      dsimp only
      rw [if_pos hnil]
      rfl
    · obtain ⟨headers', hparse, hfind⟩ := find?_parseHeaderLines_cons hnil lines headers
      rw [hparse, ih, hfind, List.map_cons, List.takeWhile_cons_of_pos (by simpa using hnil),
        lastValue_cons _ (List.takeWhile _ (lines.map dropCr)), Option.or_assoc]

theorem find?_parseHttpRequest (data name : Bytes) :
    (parseHttpRequest data).headers.find? name = lastValue (linesBefore data) name := by
  have hparse := find?_parseHeaderLines (getlines data).tail Headers.empty name
  have hempty : Headers.empty.find? name = none := rfl
  rw [hempty, Option.or_none] at hparse
  exact hparse

/-! ### The two ends -/

/-- Every line of the head with a colon is taken into account: the headers store the last value of
each name, and `do_read` takes a body of the length that the last `Content-Length` line says. -/
structure HeadEndsAgree (data : Bytes) : Prop where
  stored : ∀ name, (parseHttpRequest data).headers.find? name = lastValue (headLines data) name
  sized : ∀ socket req rest, doRead socket = some (req, rest) →
    (coReadHeaders socket []).map Prod.fst = some data → ∀ h : Headers,
    h.find? (bytes "content-length") = lastValue (headLines data) (bytes "content-length") →
    req.body.length = h.contentLength.getD 0

/-- **The two ends agree** exactly when the lines behind the first empty one repeat, for each name
that they have, the value that it has before. -/
theorem headEndsAgree_iff (data : Bytes) : HeadEndsAgree data ↔
    ∀ name v, lastValue (linesAfter data) name = some v →
      lastValue (linesBefore data) name = some v := by
  have hall : ∀ name, lastValue (headLines data) name
      = (lastValue (linesAfter data) name).or (lastValue (linesBefore data) name) := by
    intro name
    rw [← lastValue_append, linesBefore, linesAfter, List.takeWhile_append_dropWhile]
  constructor
  · intro h name v hv
    have hstored := h.stored name
    rw [find?_parseHttpRequest, hall, hv] at hstored
    exact hstored
  · intro h
    have hstored : ∀ name, (parseHttpRequest data).headers.find? name
        = lastValue (headLines data) name := by
      intro name
      rw [find?_parseHttpRequest, hall]
      cases hafter : lastValue (linesAfter data) name with
      | none => rfl
      | some v => exact h name v hafter
    refine ⟨hstored, fun socket req rest hread hdata headers hfind => ?_⟩
    rw [length_body_of_doRead hread hdata, Request.contentLength, Headers.contentLength,
      Headers.contentLength, Headers.getHeaderValue, Headers.getHeaderValue, hstored, hfind]

/-- A head with LFLF in it, and a length behind that. -/
def splitHead : Bytes :=
  bytes "GET / HTTP/1.1\r\nA: b\n\nContent-Length: 5\r\n\r\n"

/-- The length behind the empty line is not seen. -/
theorem not_headEndsAgree_splitHead :
    ¬∀ data, Chunks.findEnd crlfcrlf data = some data.length → HeadEndsAgree data := by
  intro h
  have hagree := (h splitHead (by decide)).stored (bytes "content-length")
  exact absurd hagree (by decide)

end WebSocketsLib
