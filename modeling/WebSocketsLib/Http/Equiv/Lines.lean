import WebSocketsLib.Http.Request
import WebSocketsLib.Http.Response
import WebSocketsLib.Lib.Chunks

/-!
# The lines of a head

A head is written as lines that end with CRLF and an empty line (`headerText`).  Where no line
contains LF, `getline` reads the lines back (`getlines_headerText`), and where no line is empty the
delimiter CRLFCRLF is found at the end of the head, not before it (`findEnd_headerText`).
-/

namespace WebSocketsLib

open Chunks

/-- Lines with their line ends. -/
def joinedLines (lines : List Bytes) : Bytes :=
  (lines.map fun line => line ++ crlf).flatten

/-- The lines and the empty line after them. -/
def headerText (lines : List Bytes) : Bytes :=
  joinedLines lines ++ crlf

theorem headerText_eq_joinedLines (lines : List Bytes) :
    headerText lines = joinedLines (lines ++ [[]]) := by
  simp [headerText, joinedLines]

theorem headerText_cons (line : Bytes) (lines : List Bytes) :
    headerText (line :: lines) = line ++ crlf ++ headerText lines := by
  simp [headerText, joinedLines]

/-- A header line without its line end. -/
def fieldLine (e : Bytes × Bytes) : Bytes :=
  e.1 ++ bytes ": " ++ e.2

namespace Head

/-- The lines of a head, without their line ends. -/
def lines (h : Head) : List Bytes :=
  h.startLine :: h.entries.map fieldLine

theorem text_eq_headerText (h : Head) : h.text = headerText h.lines := by
  have hlines : joinedLines (h.entries.map fieldLine) = h.entries.flatMap headerLine := by
    rw [joinedLines, List.map_map, List.flatMap_def]
    rfl
  rw [lines, headerText_cons, headerText, hlines, text, List.append_assoc]

end Head

/-! ### `getline` -/

/-- A line that ends with a newline. -/
theorem splitOn_line {line : Bytes} (h : 0x0A ∉ line) (rest : Bytes) :
    (line ++ crlf ++ rest).splitOn 0x0A = (line ++ [0x0D]) :: rest.splitOn 0x0A := by
  have hsplit : line ++ crlf ++ rest = (line ++ [0x0D]) ++ 0x0A :: rest := by
    simp [crlf]
  have hmem : 0x0A ∉ line ++ [0x0D] := by
    rw [List.mem_append, not_or]
    exact ⟨h, by decide⟩
  rw [hsplit, List.splitOn_append_cons_self_of_not_mem hmem]

theorem splitOn_joinedLines {lines : List Bytes} (h : ∀ line ∈ lines, 0x0A ∉ line) :
    (joinedLines lines).splitOn 0x0A = lines.map (fun line => line ++ [0x0D]) ++ [[]] := by
  induction lines with
  | nil => rfl
  | cons line lines ih =>
    have hjoined : joinedLines (line :: lines) = line ++ crlf ++ joinedLines lines := by
      rw [joinedLines, List.map_cons, List.flatten_cons]
      rfl
    rw [hjoined, splitOn_line (h line (List.mem_cons_self ..)),
      ih fun l hl => h l (List.mem_cons_of_mem _ hl)]
    rfl

theorem noLf_concat_nil {lines : List Bytes} (h : ∀ line ∈ lines, 0x0A ∉ line) :
    ∀ line ∈ lines ++ [[]], 0x0A ∉ line := by
  intro line hline
  rcases List.mem_append.mp hline with hline | hline
  · exact h line hline
  · rw [List.mem_singleton.mp hline]
    exact List.not_mem_nil

/-- **The lines are read back**, each with the CR of its line end. -/
theorem getlines_headerText {lines : List Bytes} (h : ∀ line ∈ lines, 0x0A ∉ line) :
    getlines (headerText lines) = lines.map (fun line => line ++ [0x0D]) ++ [[0x0D]] := by
  have hlast : ((lines ++ [[]]).map (fun line => line ++ [0x0D]) ++ [[]]).getLast?
      = some ([] : Bytes) := List.getLast?_concat
  rw [getlines, headerText_eq_joinedLines, splitOn_joinedLines (noLf_concat_nil h)]
  show (if _ = some [] then _ else _) = _
  rw [if_pos hlast, List.dropLast_concat, List.map_append]
  rfl

theorem dropCr_concat (line : Bytes) : dropCr (line ++ [0x0D]) = line := by
  rw [dropCr, List.getLast?_concat, if_pos rfl, List.dropLast_concat]

/-! ### The end of the head -/

/-- CRLFCRLF begins with a CR that a LF follows: it does not begin inside a line. -/
theorem findEnd_crlfcrlf_append {line : Bytes} (h : 0x0A ∉ line) (rest : Bytes) :
    findEnd crlfcrlf (line ++ crlf ++ rest)
      = (findEnd crlfcrlf (crlf ++ rest)).map (· + line.length) := by
  induction line with
  | nil =>
    show findEnd crlfcrlf (crlf ++ rest) = (findEnd crlfcrlf (crlf ++ rest)).map fun n => n
    exact Option.map_id'.symm
  | cons a line ih =>
    have hno : ¬ crlfcrlf.isPrefixOf (a :: (line ++ crlf ++ rest)) = true := by
      rw [List.isPrefixOf_iff_prefix]
      intro hp
      have hp' : [0x0A, 0x0D, 0x0A] <+: line ++ crlf ++ rest := (List.cons_prefix_cons.mp hp).2
      cases line with
      | nil => exact absurd (List.cons_prefix_cons.mp hp').1 (by decide)
      | cons b line =>
        obtain rfl : (0x0A : UInt8) = b := (List.cons_prefix_cons.mp hp').1
        exact h (List.mem_cons_of_mem a (List.mem_cons_self ..))
    rw [List.cons_append, List.cons_append, findEnd, if_neg hno,
      ih fun hmem => h (List.mem_cons_of_mem a hmem), Option.map_map]
    congr 1

/-- The line end of a line that another line follows. -/
theorem findEnd_crlfcrlf_crlf {rest : Bytes} (h : ¬ crlf <+: rest) :
    findEnd crlfcrlf (crlf ++ rest) = (findEnd crlfcrlf rest).map (· + 2) := by
  have hfirst : ¬ crlfcrlf.isPrefixOf (0x0D :: 0x0A :: rest) = true := by
    rw [List.isPrefixOf_iff_prefix]
    intro hp
    exact h (List.cons_prefix_cons.mp (List.cons_prefix_cons.mp hp).2).2
  have hsecond : ¬ crlfcrlf.isPrefixOf (0x0A :: rest) = true := by
    rw [List.isPrefixOf_iff_prefix]
    intro hp
    exact absurd (List.cons_prefix_cons.mp hp).1 (by decide)
  show findEnd crlfcrlf (0x0D :: 0x0A :: rest) = _
  rw [findEnd, if_neg hfirst, findEnd, if_neg hsecond, Option.map_map]
  rfl

/-- A line that is not empty does not begin with CRLF. -/
theorem not_crlf_prefix {line : Bytes} (hlf : 0x0A ∉ line) (hne : line ≠ []) (rest : Bytes) :
    ¬ crlf <+: line ++ crlf ++ rest := by
  intro hp
  cases line with
  | nil => exact hne rfl
  | cons a line =>
    have hp' : [0x0A] <+: line ++ crlf ++ rest := (List.cons_prefix_cons.mp hp).2
    cases line with
    | nil => exact absurd (List.cons_prefix_cons.mp hp').1 (by decide)
    | cons b line =>
      obtain rfl : (0x0A : UInt8) = b := (List.cons_prefix_cons.mp hp').1
      exact hlf (List.mem_cons_of_mem a (List.mem_cons_self ..))

/-- **The head ends** with the first CRLFCRLF. -/
theorem findEnd_headerText {line : Bytes} {lines : List Bytes}
    (hlf : ∀ l ∈ line :: lines, 0x0A ∉ l) (hne : ∀ l ∈ lines, l ≠ []) :
    findEnd crlfcrlf (headerText (line :: lines)) = some (headerText (line :: lines)).length := by
  have hline : 0x0A ∉ line := hlf line (List.mem_cons_self ..)
  induction lines generalizing line with
  | nil =>
    have hend : findEnd crlfcrlf (crlf ++ crlf) = some 4 := by decide
    have htext : headerText [line] = line ++ crlf ++ crlf := headerText_cons line []
    rw [htext, findEnd_crlfcrlf_append hline, hend, List.length_append, List.length_append]
    exact congrArg some (Nat.add_comm 4 line.length)
  | cons next lines ih =>
    have hnext : 0x0A ∉ next := hlf next (List.mem_cons_of_mem _ (List.mem_cons_self ..))
    have hno : ¬ crlf <+: headerText (next :: lines) := by
      rw [headerText_cons]
      exact not_crlf_prefix hnext (hne next (List.mem_cons_self ..)) _
    rw [headerText_cons, findEnd_crlfcrlf_append hline, findEnd_crlfcrlf_crlf hno,
      ih (fun l hl => hlf l (List.mem_cons_of_mem _ hl))
        (fun l hl => hne l (List.mem_cons_of_mem _ hl)) hnext, Option.map_some, Option.map_some,
      List.length_append, List.length_append]
    simp only [crlf, List.length_cons, List.length_nil, Option.some.injEq]
    omega

end WebSocketsLib
