import WebSocketsLib.Client.Equiv.Handshake
import WebSocketsLib.Client.HttpClient
import WebSocketsLib.Lib.Pieces

/-!
# What the HTTP client reads

`readResponse_eq`: `read_response` returns the stream without its first line of a CR alone, however
the stream is cut into chunks.

The head is read up to the first cut behind CRLFCRLF, so the buffer contains such a line with its
newline (`exists_crLine`); the lines in front of it are written again with their newlines
(`readHeaderLines_eq`), and all that is behind it follows (`readBody_eq`).
-/

namespace WebSocketsLib

namespace HttpClient

open Chunks Pieces

/-- The text without its first line of a CR alone, and the newline of that line. -/
def withoutCrLine (s : Bytes) : Bytes :=
  [0x0A].intercalate ((s.splitOn 0x0A).erase [0x0D])

/-! ### Lines -/

/-- Lines with their newlines. -/
def newlined (lines : List Bytes) : Bytes :=
  (lines.map fun line => line ++ [0x0A]).flatten

theorem newlined_cons (line : Bytes) (lines : List Bytes) :
    newlined (line :: lines) = line ++ 0x0A :: newlined lines := by
  rw [newlined, List.map_cons, List.flatten_cons, List.append_assoc]
  rfl

theorem intercalate_append (lines : List Bytes) {rest : List Bytes} (hrest : rest ≠ []) :
    [0x0A].intercalate (lines ++ rest) = newlined lines ++ [0x0A].intercalate rest := by
  induction lines with
  | nil => rfl
  | cons line lines ih =>
    rw [List.cons_append, List.intercalate_cons_of_ne_nil (by simp [hrest]), ih, newlined_cons]
    simp

/-- The text in front of its first line of a CR alone, and the text behind it. -/
structure CrLine (s : Bytes) (lines : List Bytes) (rest : Bytes) : Prop where
  eq : s = newlined lines ++ 0x0D :: 0x0A :: rest
  noLf : ∀ line ∈ lines, 0x0A ∉ line
  first : [0x0D] ∉ lines

theorem splitOn_newlined_append {lines : List Bytes} (h : ∀ line ∈ lines, 0x0A ∉ line)
    (rest : Bytes) : (newlined lines ++ rest).splitOn 0x0A = lines ++ rest.splitOn 0x0A := by
  induction lines with
  | nil => rfl
  | cons line lines ih =>
    obtain ⟨hline, hlines⟩ := List.forall_mem_cons.mp h
    rw [newlined_cons, List.append_assoc, List.cons_append,
      List.splitOn_append_cons_self_of_not_mem hline, ih hlines]
    rfl

theorem splitOn_crLine (rest : Bytes) :
    (0x0D :: 0x0A :: rest : Bytes).splitOn 0x0A = [0x0D] :: rest.splitOn 0x0A := by
  have hcr : (0x0A : UInt8) ∉ [(0x0D : UInt8)] := by decide
  exact List.splitOn_append_cons_self_of_not_mem hcr rest

/-- **Dropping the line** leaves what is in front of it and behind it. -/
theorem CrLine.withoutCrLine_eq {s rest : Bytes} {lines : List Bytes} (h : CrLine s lines rest) :
    withoutCrLine s = newlined lines ++ rest := by
  rw [withoutCrLine, h.eq, splitOn_newlined_append h.noLf, splitOn_crLine,
    List.erase_append_right _ h.first, List.erase_cons_head,
    intercalate_append _ (List.splitOn_ne_nil _ _), List.intercalate_splitOn]

/-- What follows makes no difference. -/
theorem CrLine.append {s rest : Bytes} {lines : List Bytes} (h : CrLine s lines rest) (t : Bytes) :
    CrLine (s ++ t) lines (rest ++ t) :=
  ⟨by rw [h.eq, List.append_assoc]; rfl, h.noLf, h.first⟩

/-- **CRLFCRLF** contains the newlines in front of and behind a line of a CR alone. -/
theorem exists_crLine {s : Bytes} (h : crlfcrlf <:+: s) : ∃ lines rest, CrLine s lines rest := by
  obtain ⟨a, b, rfl⟩ := h
  have hcut : a ++ crlfcrlf ++ b = (a ++ [0x0D]) ++ 0x0A :: 0x0D :: 0x0A :: b := by
    simp [crlfcrlf]
  have hsplit : (a ++ crlfcrlf ++ b).splitOn 0x0A
      = ((a ++ [0x0D]).splitOn 0x0A ++ [[0x0D]]) ++ b.splitOn 0x0A := by
    rw [hcut, List.splitOn_append_cons_self, splitOn_crLine, List.append_assoc]
    rfl
  -- the first such line is not behind the one in CRLFCRLF
  obtain ⟨lines, more, heq, hfirst⟩ := List.eq_append_cons_of_mem
    (List.mem_append_right ((a ++ [0x0D]).splitOn 0x0A) (List.mem_singleton_self [0x0D]))
  rw [heq, List.append_assoc lines, List.cons_append] at hsplit
  have hmore : more ++ b.splitOn 0x0A ≠ [] := fun hnil =>
    List.splitOn_ne_nil _ _ (List.append_eq_nil_iff.mp hnil).2
  refine ⟨lines, [0x0A].intercalate (more ++ b.splitOn 0x0A), ?_, fun line hline => ?_, hfirst⟩
  · have hjoin : [0x0A].intercalate ((a ++ crlfcrlf ++ b).splitOn 0x0A) = a ++ crlfcrlf ++ b :=
      List.intercalate_splitOn 0x0A
    rw [← hjoin, hsplit, intercalate_append _ (List.cons_ne_nil _ _),
      List.intercalate_cons_of_ne_nil hmore]
    rfl
  · have hmem : line ∈ (a ++ crlfcrlf ++ b).splitOn 0x0A := by
      rw [hsplit]
      exact List.mem_append_left _ hline
    exact not_mem_of_mem_splitOn hmem

/-! ### The two loops -/

/-- **The lines of the head** are written again as they are. -/
theorem readHeaderLines_eq {s rest : Bytes} {lines : List Bytes} (h : CrLine s lines rest) :
    readHeaderLines s = (newlined lines, rest) := by
  obtain ⟨rfl, hlf, hfirst⟩ := h
  induction lines with
  | nil =>
    have hlf : (0x0A : UInt8) ∉ [(0x0D : UInt8)] := by decide
    have hgetline : getline (0x0D :: 0x0A :: rest) = ([0x0D], rest) := getline_line hlf rest
    rw [readHeaderLines, newlined, List.map_nil, List.flatten_nil, List.nil_append, hgetline]
    simp
  | cons line lines ih =>
    obtain ⟨hline, hlf⟩ := List.forall_mem_cons.mp hlf
    rw [List.mem_cons, not_or] at hfirst
    have hgetline := getline_line hline (newlined lines ++ 0x0D :: 0x0A :: rest)
    rw [newlined_cons, List.append_assoc, List.cons_append, readHeaderLines, dif_neg (by simp),
      hgetline]
    dsimp only
    rw [if_neg (Ne.symm hfirst.1), ih hlf hfirst.2]

/-- **The rest of the stream** is read. -/
theorem readBody_eq (socket : Socket) (response : Bytes) :
    readBody socket response = response ++ socket.unread := by
  induction socket, response using readBody.induct with
  | case1 response =>
    rw [readBody]
    exact (List.append_nil response).symm
  | case2 response chunk rest ih =>
    have hunread : (readSome chunk rest).1 ++ (readSome chunk rest).2.unread
        = chunk ++ Socket.unread rest := by
      rw [readSome]
      dsimp only
      split_ifs with hsize
      · rw [List.take_of_length_le hsize]
      · rw [Socket.unread, List.flatten_cons, ← List.append_assoc, List.take_append_drop]
        rfl
    rw [readBody, ih, List.append_assoc, hunread]
    rfl

/-- **`read_response` does not depend on the chunks**: the stream is returned without its first line
of a CR alone. -/
theorem readResponse_eq {s : Bytes} (h : crlfcrlf <:+: s) (socket : Socket)
    (hsocket : socket.unread = s) : readResponse .eof socket = withoutCrLine s := by
  have hstream : crlfcrlf <:+: [] ++ socket.flatten := by
    rw [List.nil_append, ← Socket.unread, hsocket]
    exact h
  obtain ⟨n, buf, rest, hread, hsplit, hdelim⟩ := readUntil_of_infix hstream
  obtain ⟨lines, leftover, hline⟩ := exists_crLine hdelim
  have hs : s = buf ++ Socket.unread rest := by
    rw [← hsocket]
    exact hsplit.symm
  rw [readResponse, hread]
  dsimp only
  rw [readHeaderLines_eq hline, readBody_eq, hs, (hline.append _).withoutCrLine_eq,
    List.append_assoc]

/-- The delimiter and the body, each in two chunks. -/
def splitResponse : Socket :=
  [bytes "HTTP/1.1 200 OK\r\nA: b\r\n\r", bytes "\nbo", bytes "dy"]

theorem readResponse_eq_splitResponse :
    readResponse .eof splitResponse = bytes "HTTP/1.1 200 OK\r\nA: b\r\nbody" := by
  rw [readResponse_eq (s := splitResponse.unread) ⟨bytes "HTTP/1.1 200 OK\r\nA: b", bytes "body",
    by decide⟩ splitResponse rfl]
  decide

end HttpClient

end WebSocketsLib
