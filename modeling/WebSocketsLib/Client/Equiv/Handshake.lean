import WebSocketsLib.Client.Handshake
import WebSocketsLib.Http.Equiv.Lines

/-!
# Where the frames start

`read_http_headers` takes lines from a buffer that whole chunks are appended to, and drops the
buffer when it has seen the empty line.

`connect_spec`: `connect` accepts every response with status 101, and leaves the bytes that follow
its header block to `read_frame` exactly when the stream is cut at the end of the header block.
-/

namespace WebSocketsLib

open Chunks

/-- A response header block with status 101: the lines, without their line ends. -/
structure HeaderBlock where
  version : Bytes
  reason : Bytes
  fields : List Bytes
  reason_eq : reason = [] ∨ reason.head? = some 0x20
  noLf : ∀ line ∈ (version ++ bytes " 101" ++ reason) :: fields, 0x0A ∉ line
  nonempty : ∀ line ∈ fields, line ≠ []

namespace HeaderBlock

def statusLine (block : HeaderBlock) : Bytes :=
  block.version ++ bytes " 101" ++ block.reason

def lines (block : HeaderBlock) : List Bytes :=
  block.statusLine :: block.fields

end HeaderBlock

def HeaderBlock.text (block : HeaderBlock) : Bytes :=
  headerText block.lines

/-! ### One line -/

theorem findEnd_crlf {line : Bytes} (h : 0x0A ∉ line) :
    findEnd crlf (line ++ crlf) = some (line ++ crlf).length :=
  findEnd_of_not_mem (d := [0x0D]) (z := 0x0A) (by decide) h

theorem getline_line {line : Bytes} (h : 0x0A ∉ line) (rest : Bytes) :
    getline (line ++ 0x0A :: rest) = (line, rest) := by
  have hall : ∀ c ∈ line, (c != 0x0A) = true := by
    intro c hc
    rw [bne_iff_ne]
    rintro rfl
    exact h hc
  rw [getline, List.takeWhile_append_of_pos hall, List.dropWhile_append_of_pos hall]
  simp

theorem getline_crlf {line : Bytes} (h : 0x0A ∉ line) (rest : Bytes) :
    getline (line ++ crlf ++ rest) = (line ++ [0x0D], rest) := by
  have hmem : 0x0A ∉ line ++ [0x0D] := by
    rw [List.mem_append, not_or]
    exact ⟨h, by decide⟩
  have hsplit : line ++ crlf ++ rest = (line ++ [0x0D]) ++ 0x0A :: rest := by
    simp [crlf]
  rw [hsplit, getline_line hmem]

/-- A line that `read_http_headers` adds to the text. -/
theorem line_goes_on {line : Bytes} (h : line ≠ []) :
    ¬ (line ++ [0x0D] = [0x0D] ∨ line ++ [0x0D] = []) := by
  simp [h]

/-- The first line of the stream is read with the first chunks that contain it. -/
theorem read_line (line : Bytes) {buf y : Bytes} {socket : Socket} (hlf : 0x0A ∉ line)
    (h : buf ++ socket.flatten = (line ++ crlf) ++ y) :
    ∃ taken rest buf', FirstCut buf socket (line ++ crlf).length taken rest ∧
      readUntil crlf buf socket = some ((line ++ crlf).length, (line ++ crlf) ++ buf', rest) ∧
      buf ++ taken.flatten = (line ++ crlf) ++ buf' ∧ buf' ++ rest.flatten = y := by
  obtain ⟨taken, rest, hcut, hread⟩ := readUntil_spec (findEnd_crlf hlf) h
  have hsplit : (buf ++ taken.flatten) ++ rest.flatten = (line ++ crlf) ++ y := by
    rw [List.append_assoc, ← List.flatten_append, ← hcut.split, h]
  obtain ⟨buf', hbuf'⟩ : line ++ crlf <+: buf ++ taken.flatten := List.prefix_of_prefix_length_le
    (List.prefix_append _ y) (hsplit ▸ List.prefix_append _ rest.flatten) hcut.le
  rw [← hbuf'] at hread hsplit
  rw [List.append_assoc] at hsplit
  exact ⟨taken, rest, buf', hcut, hread, hbuf'.symm, List.append_cancel_left hsplit⟩

/-! ### The loop -/

/-- **The header lines** are read with the first chunks that contain all of them. -/
theorem readHttpHeadersLoop_spec {lines : List Bytes} (out buf : Bytes) {f : Bytes}
    {socket : Socket} {fuel : ℕ} (hlf : ∀ line ∈ lines, 0x0A ∉ line)
    (hne : ∀ line ∈ lines, line ≠ [])
    (h : buf ++ socket.flatten = headerText lines ++ f) (hfuel : lines.length < fuel) :
    ∃ taken rest, FirstCut buf socket (headerText lines).length taken rest ∧
      readHttpHeadersLoop fuel out buf socket = some (out ++ joinedLines lines, rest) := by
  -- each line takes one round; its over-read bytes are the buffer of the next
  induction lines generalizing out buf socket fuel with
  | nil =>
    obtain ⟨fuel, rfl⟩ : ∃ n, fuel = n + 1 := Nat.exists_eq_add_one.mpr hfuel
    obtain ⟨taken, rest, buf', hcut, hread, -, -⟩ := read_line [] List.not_mem_nil h
    refine ⟨taken, rest, hcut, ?_⟩
    rw [readHttpHeadersLoop, hread]
    simp only [Option.bind_eq_bind, Option.bind_some, getline_crlf List.not_mem_nil]
    simp [joinedLines]
  | cons line lines ih =>
    obtain ⟨fuel, rfl⟩ : ∃ n, fuel = n + 1 := Nat.exists_eq_add_one.mpr (by omega)
    have hline : 0x0A ∉ line := hlf line (List.mem_cons_self ..)
    have htext : headerText (line :: lines) = (line ++ crlf) ++ headerText lines := by
      simp [headerText, joinedLines]
    rw [htext, List.append_assoc] at h
    obtain ⟨taken, rest, buf', hcut, hread, hbuf, hrest⟩ := read_line line hline h
    obtain ⟨taken', rest', hcut', hloop⟩ := ih (out ++ (line ++ [0x0D]) ++ [0x0A]) buf'
      (fun l hl => hlf l (List.mem_cons_of_mem _ hl))
      (fun l hl => hne l (List.mem_cons_of_mem _ hl)) hrest (by simpa using hfuel)
    refine ⟨taken ++ taken', rest', ?_, ?_⟩
    · rw [htext, List.length_append]
      exact hcut.append hbuf hcut'
    · rw [readHttpHeadersLoop, hread]
      simp only [Option.bind_eq_bind, Option.bind_some, getline_crlf hline]
      rw [if_neg (line_goes_on (hne line (List.mem_cons_self ..))), hloop]
      simp [joinedLines, crlf]

/-! ### The handshake -/

theorem length_le_headerText (lines : List Bytes) : lines.length < (headerText lines).length := by
  have hjoined : lines.length ≤ (joinedLines lines).length := by
    induction lines with
    | nil => exact Nat.zero_le _
    | cons line lines ih =>
      rw [joinedLines, List.map_cons, List.flatten_cons, List.length_append, List.length_append]
      rw [joinedLines] at ih
      simp only [List.length_cons, crlf] at ih ⊢
      omega
  rw [headerText, List.length_append]
  exact Nat.lt_of_le_of_lt hjoined (Nat.lt_add_of_pos_right (by decide))

/-- **The client handshake**: a response with status 101 is accepted, and `read_frame` starts at the
byte after the header block exactly when the stream is cut there. -/
theorem connect_spec (block : HeaderBlock) (f : Bytes) (socket : Socket)
    (h : socket.unread = block.text ++ f) :
    ∃ rest, connect socket = some rest ∧
      (rest.unread = f ↔ CutIn socket block.text.length block.text.length) := by
  have hne : ∀ line ∈ block.lines, line ≠ [] := by
    intro line hline
    rcases List.mem_cons.mp hline with rfl | hline
    · rw [HeaderBlock.statusLine]
      simp [bytes]
    · exact block.nonempty line hline
  have hlf : ∀ line ∈ block.lines, 0x0A ∉ line := block.noLf
  have hfuel : block.lines.length < socket.unread.length + 1 := by
    have hlen := length_le_headerText block.lines
    rw [h, HeaderBlock.text, List.length_append]
    omega
  obtain ⟨taken, rest, hcut, hloop⟩ := readHttpHeadersLoop_spec [] []
    hlf hne h hfuel
  refine ⟨rest, ?_, hcut.rest_eq_iff h⟩
  -- the status code is in the first line of the text that has been read
  have hstatus : findEnd (bytes "101") (joinedLines block.lines) ≠ none := by
    have hjoined : joinedLines block.lines = (block.version ++ bytes " ") ++ bytes "101"
        ++ (block.reason ++ crlf ++ joinedLines block.fields) := by
      simp [joinedLines, HeaderBlock.lines, HeaderBlock.statusLine, bytes]
    rw [hjoined]
    exact findEnd_ne_none
  rw [connect, readHttpHeaders, hloop, Option.bind_eq_bind, Option.bind_some, List.nil_append]
  exact if_neg hstatus

/-- The response of the server. -/
def switchingProtocols : HeaderBlock where
  version := bytes "HTTP/1.1"
  reason := bytes " Switching Protocols"
  fields := [bytes "Upgrade: websocket"]
  reason_eq := by decide
  noLf := by decide
  nonempty := by decide

/-- A Ping without payload, as the server sends it. -/
def pingBytes : Bytes :=
  [0x89, 0]

theorem connect_spec_switchingProtocols :
    ∃ rest, connect [switchingProtocols.text, pingBytes] = some rest ∧ rest.unread = pingBytes := by
  obtain ⟨rest, hconnect, hunread⟩ := connect_spec switchingProtocols pingBytes
    [switchingProtocols.text, pingBytes] (by simp [Socket.unread])
  refine ⟨rest, hconnect, hunread.mpr ⟨[switchingProtocols.text], [pingBytes], rfl, ?_⟩⟩
  rw [List.flatten_singleton]
  exact ⟨Nat.le_refl _, Nat.le_refl _⟩

/-- The response and a frame in one chunk: `read_frame` does not see the frame. -/
theorem not_connect_coalesced :
    ¬ ∃ rest, connect [switchingProtocols.text ++ pingBytes] = some rest ∧
      rest.unread = pingBytes := by
  rintro ⟨rest, hconnect, hunread⟩
  have hrest : connect [switchingProtocols.text ++ pingBytes] = some [] := by decide
  rw [hconnect] at hrest
  obtain rfl : rest = [] := Option.some.inj hrest
  cases hunread

end WebSocketsLib
