import WebSocketsLib.Client.Equiv.Handshake

/-!
# Which responses the client accepts

`connect` looks for the text `101` anywhere in the header block (`connect_isSome_iff`).
`acceptsOnlyStatus101_iff` compares that with the status code of the status line.
-/

namespace WebSocketsLib

open Chunks

/-- A response header block: a status line and header fields, without their line ends. -/
structure ResponseBlock where
  statusLine : Bytes
  fields : List Bytes
  noLf : ∀ line ∈ statusLine :: fields, 0x0A ∉ line
  nonempty : ∀ line ∈ statusLine :: fields, line ≠ []

namespace ResponseBlock

def lines (block : ResponseBlock) : List Bytes :=
  block.statusLine :: block.fields

def text (block : ResponseBlock) : Bytes :=
  headerText block.lines

/-- The status code: what stands between the first space of the status line and the next one. -/
def statusCode (block : ResponseBlock) : Bytes :=
  ((block.statusLine.dropWhile fun c => c != 0x20).drop 1).takeWhile fun c => c != 0x20

/-- The status code is a part of the status line. -/
theorem statusCode_infix (block : ResponseBlock) : block.statusCode <:+: block.statusLine := by
  have htail : (block.statusLine.dropWhile fun c => c != 0x20).drop 1 <:+ block.statusLine :=
    (List.drop_suffix 1 _).trans (List.dropWhile_suffix _)
  exact (List.takeWhile_prefix _).isInfix.trans htail.isInfix

end ResponseBlock

/-! ### The search -/

/-- The line ends do not take part in an occurrence of `101`. -/
theorem infix_joinedLines_iff (lines : List Bytes) :
    bytes "101" <:+: joinedLines lines ↔ ∃ line ∈ lines, bytes "101" <:+: line := by
  induction lines with
  | nil =>
    rw [joinedLines, List.map_nil, List.flatten_nil, List.infix_nil]
    simp [bytes]
  | cons line lines ih =>
    have hjoined : joinedLines (line :: lines)
        = line ++ 0x0D :: ([] ++ 0x0A :: joinedLines lines) := by
      simp [joinedLines, crlf]
    have hnil : ¬ bytes "101" <:+: [] := by
      simp [bytes]
    rw [hjoined, infix_append_cons_iff (by decide), infix_append_cons_iff (by decide), ih,
      List.exists_mem_cons_iff]
    rw [or_iff_right hnil]

/-- **`connect` accepts** a header block exactly when one of its lines contains `101`, however the
stream is cut. -/
theorem connect_isSome_iff {lines : List Bytes} {f : Bytes} {socket : Socket}
    (hlf : ∀ line ∈ lines, 0x0A ∉ line) (hne : ∀ line ∈ lines, line ≠ [])
    (h : socket.unread = headerText lines ++ f) :
    (connect socket).isSome ↔ ∃ line ∈ lines, bytes "101" <:+: line := by
  have hfuel : lines.length < socket.unread.length + 1 := by
    have hlen := length_le_headerText lines
    rw [h, List.length_append]
    omega
  obtain ⟨taken, rest, -, hloop⟩ := readHttpHeadersLoop_spec [] [] hlf hne h hfuel
  rw [connect, readHttpHeaders, hloop, Option.bind_eq_bind, Option.bind_some, List.nil_append,
    ← infix_joinedLines_iff, ← findEnd_ne_none_iff]
  show (if findEnd (bytes "101") (joinedLines lines) = none then none else some rest).isSome = true
    ↔ _
  split_ifs with hfind
  · constructor
    · intro hsome
      cases hsome
    · intro hsome
      exact absurd hfind hsome
  · constructor
    · intro _
      exact hfind
    · intro _
      rfl

/-! ### The status code -/

/-- **The client accepts a handshake on status 101 only**, exactly for the responses whose status
code is 101 and those without the text `101` in any of their lines. -/
theorem acceptsOnlyStatus101_iff (block : ResponseBlock) (f : Bytes) (socket : Socket)
    (h : socket.unread = block.text ++ f) :
    ((connect socket).isSome ↔ block.statusCode = bytes "101") ↔
      (block.statusCode = bytes "101" ∨ ∀ line ∈ block.lines, ¬ bytes "101" <:+: line) := by
  rw [connect_isSome_iff block.noLf block.nonempty h]
  have hcode : block.statusCode = bytes "101" → ∃ line ∈ block.lines, bytes "101" <:+: line := by
    intro heq
    exact ⟨block.statusLine, List.mem_cons_self .., heq ▸ block.statusCode_infix⟩
  constructor
  · intro hiff
    by_cases heq : block.statusCode = bytes "101"
    · exact Or.inl heq
    · right
      intro line hline hinfix
      exact heq (hiff.mp ⟨line, hline, hinfix⟩)
  · rintro (heq | hnone)
    · exact ⟨fun _ => heq, hcode⟩
    · constructor
      · rintro ⟨line, hline, hinfix⟩
        exact absurd hinfix (hnone line hline)
      · exact hcode

/-- A page of 101 bytes in place of the handshake. -/
def okWithLength101 : ResponseBlock where
  statusLine := bytes "HTTP/1.1 200 OK"
  fields := [bytes "Content-Length: 101"]
  noLf := by decide
  nonempty := by decide

theorem acceptsOnlyStatus101_iff_switchingProtocols :
    (connect [switchingProtocols.text]).isSome ↔
      ((ResponseBlock.mk switchingProtocols.statusLine switchingProtocols.fields (by decide)
        (by decide)).statusCode = bytes "101") :=
  (acceptsOnlyStatus101_iff
    (.mk switchingProtocols.statusLine switchingProtocols.fields (by decide) (by decide)) []
    [switchingProtocols.text] (by decide)).mpr (Or.inl (by decide))

/-- The response is accepted, and its status code is 200. -/
theorem not_acceptsOnlyStatus101 :
    ¬ ((connect [okWithLength101.text]).isSome ↔ okWithLength101.statusCode = bytes "101") := by
  decide

end WebSocketsLib
