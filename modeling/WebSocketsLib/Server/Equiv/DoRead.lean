import WebSocketsLib.Server.DoRead

/-!
# Consecutive requests on one connection

`do_read` reads whole chunks until it has seen the end of the head, and takes the body from what it
has read first.  Bytes it has read beyond the body are lost with its local buffer.

`noByteLost_iff`: after each of the requests the unread bytes are those that follow it, exactly when
each request has a cut between the end of its head and its own end.
-/

namespace WebSocketsLib

open Chunks

/-- The bytes of a well-formed request: the head ends with its only empty line, and the body has
the length that the head announces (none if it announces none). -/
structure WireRequest where
  head : Bytes
  body : Bytes
  headEnds : findEnd crlfcrlf head = some head.length
  bodyLength : (parseHttpRequest head).contentLength.getD 0 = body.length

namespace WireRequest

def wire (r : WireRequest) : Bytes :=
  r.head ++ r.body

/-- The request that the bytes denote. -/
def value (r : WireRequest) : Request :=
  { parseHttpRequest r.head with body := r.body }

theorem head_pos (r : WireRequest) : 0 < r.head.length :=
  lt_of_lt_of_le (by decide) (findEnd_bounds r.headEnds).1

theorem length_wire (r : WireRequest) : r.wire.length = r.head.length + r.body.length :=
  List.length_append

end WireRequest

/-! ### One request -/

/-- Without the case distinction on the length: an empty body takes nothing. -/
theorem doRead_eq (socket : Socket) : doRead socket =
    (coReadHeaders socket []).bind fun (headersText, buf, socket) =>
      (coReadBody socket buf ((parseHttpRequest headersText).contentLength.getD 0)).map
        fun (body, _, socket) => ({ parseHttpRequest headersText with body }, socket) := by
  unfold doRead
  refine bind_congr fun ⟨text, buf, socket⟩ => ?_
  dsimp only
  split_ifs with hlen
  · cases coReadBody socket buf ((parseHttpRequest text).contentLength.getD 0) <;> rfl
  · rw [not_not] at hlen
    rw [hlen, coReadBody]
    simp [readExactly, parseHttpRequest]

/-- The head is taken from the first chunks that hold it, and what is behind it there stays in the
buffer. -/
theorem coReadHeaders_spec (r : WireRequest) {y : Bytes} {socket : Socket}
    (h : socket.unread = r.wire ++ y) : ∃ taken left rest,
      coReadHeaders socket [] = some (r.head, left, rest) ∧ left ++ rest.flatten = r.body ++ y ∧
      socket = taken ++ rest ∧ taken.flatten.length = r.head.length + left.length ∧
      ∀ taken' rest', socket = taken' ++ rest' → r.head.length ≤ taken'.flatten.length →
        taken.flatten.length ≤ taken'.flatten.length := by
  have hhead : ([] : Bytes) ++ socket.flatten = r.head ++ (r.body ++ y) := by
    rw [List.nil_append, ← List.append_assoc]
    exact h
  obtain ⟨taken, rest, ⟨hsplit, hle, hfirst⟩, hread⟩ := readUntil_spec r.headEnds hhead
  simp only [List.nil_append] at hread hle hfirst
  obtain ⟨left, hleft⟩ : r.head <+: taken.flatten := List.prefix_of_prefix_length_le
    (List.prefix_append r.head (r.body ++ y))
    (by rw [← hhead, hsplit, List.flatten_append]; exact List.prefix_append _ _) hle
  refine ⟨taken, left, rest, ?_, ?_, hsplit, ?_, hfirst⟩
  · rw [coReadHeaders, hread]
    simp [takeFront, ← hleft]
  · rw [List.nil_append, hsplit, List.flatten_append, ← hleft, List.append_assoc] at hhead
    exact List.append_cancel_left hhead
  · rw [← hleft, List.length_append]

/-- A body that is not in the buffer as a whole is completed from the socket, exactly. -/
theorem coReadBody_of_le {left body y : Bytes} {socket : Socket}
    (h : left ++ socket.flatten = body ++ y) (hle : left.length ≤ body.length) : ∃ rest,
      coReadBody socket left body.length = some (body, [], rest) ∧ rest.flatten = y ∧
      ∀ lo hi, 0 < lo → (CutIn rest lo hi ↔
        CutIn socket (body.length - left.length + lo) (body.length - left.length + hi)) := by
  obtain ⟨missing, rfl⟩ : left <+: body := List.prefix_of_prefix_length_le
    (h ▸ List.prefix_append left socket.flatten) (List.prefix_append body y) hle
  have hsocket : socket.flatten = missing ++ y := by
    rw [List.append_assoc] at h
    exact List.append_cancel_left h
  obtain ⟨rest, hexact, hrest, hcuts⟩ := readExactly_spec hsocket
  have hmissing : (left ++ missing).length - left.length = missing.length := by
    rw [List.length_append]
    omega
  refine ⟨rest, ?_, hrest, ?_⟩
  · rw [coReadBody, Nat.min_eq_left hle, hmissing, hexact]
    simp
  · rw [hmissing]
    exact hcuts

/-- A body that is in the buffer leaves the socket alone. -/
theorem coReadBody_of_ge {left body : Bytes} (h : body <+: left) (socket : Socket) : ∃ lost,
    left = body ++ lost ∧ coReadBody socket left body.length = some (body, lost, socket) := by
  obtain ⟨lost, rfl⟩ := h
  refine ⟨lost, rfl, ?_⟩
  rw [coReadBody, Nat.min_eq_right (by simp), Nat.sub_self]
  simp [readExactly]

/-- **One `do_read`** returns the request at the front of the stream.  It leaves what follows, with
its cuts, if there is a cut between the end of the head and the end of the request. -/
theorem doRead_spec (r : WireRequest) {y : Bytes} {socket : Socket}
    (h : socket.unread = r.wire ++ y) :
    ∃ rest, doRead socket = some (r.value, rest) ∧
      (rest.unread = y ↔ CutIn socket r.head.length r.wire.length) ∧
      (rest.unread = y → ∀ lo hi, 0 < lo →
        (CutIn rest lo hi ↔ CutIn socket (r.wire.length + lo) (r.wire.length + hi))) := by
  obtain ⟨taken, left, rest, hheaders, hbeyond, hsplit, hlen, hfirst⟩ := coReadHeaders_spec r h
  rw [doRead_eq, hheaders]
  simp only [Option.bind_some, r.bodyLength]
  rcases le_or_gt left.length r.body.length with hle | hgt
  · -- the rest of the body is read from the socket
    obtain ⟨rest', hbody, hrest', hcuts⟩ := coReadBody_of_le hbeyond hle
    have hwire : r.wire.length = taken.flatten.length + (r.body.length - left.length) := by
      rw [r.length_wire, hlen]
      omega
    refine ⟨rest', by rw [hbody]; rfl, ?_, fun _ lo hi hlo => ?_⟩
    · exact iff_of_true hrest' ⟨taken, rest, hsplit, by omega, by omega⟩
    · rw [hcuts lo hi hlo, hwire, Nat.add_assoc, Nat.add_assoc, hsplit, cutIn_append (by omega)]
  · -- the buffer holds more than the body, which is lost
    have hfront : r.body <+: left := List.prefix_of_prefix_length_le
      (List.prefix_append r.body y) (hbeyond ▸ List.prefix_append left rest.flatten) hgt.le
    obtain ⟨lost, hlost, hbody⟩ := coReadBody_of_ge hfront rest
    rw [hlost, List.length_append] at hgt hlen
    have hne : rest.flatten ≠ y := by
      intro heq
      rw [hlost, List.append_assoc] at hbeyond
      have hcount := congrArg List.length (List.append_cancel_left hbeyond)
      rw [List.length_append, heq] at hcount
      omega
    refine ⟨rest, by rw [hbody]; rfl, iff_of_false hne ?_, fun heq => absurd heq hne⟩
    rintro ⟨taken', rest'', hsplit', h1, h2⟩
    have hmin := hfirst taken' rest'' hsplit' h1
    rw [r.length_wire] at h2
    omega

/-! ### A sequence of requests -/

def wires (reqs : List WireRequest) : Bytes :=
  (reqs.map WireRequest.wire).flatten

/-- After any number of the requests they have been returned in order, and what is unread is what
follows them. -/
def NoByteLost (reqs : List WireRequest) (t : Bytes) (socket : Socket) : Prop :=
  ∀ before after, reqs = before ++ after →
    ∃ rest, doReads before.length socket = some (before.map WireRequest.value, rest) ∧
      rest.unread = wires after ++ t

/-- Between the end of the head and the end of each request the stream is cut. -/
def CutPerRequest (reqs : List WireRequest) (socket : Socket) : Prop :=
  ∀ before r after, reqs = before ++ r :: after →
    CutIn socket ((wires before).length + r.head.length) ((wires before).length + r.wire.length)

theorem cutPerRequest_cons {r : WireRequest} {reqs : List WireRequest} {socket : Socket} :
    CutPerRequest (r :: reqs) socket ↔ CutIn socket r.head.length r.wire.length ∧
      ∀ before r' after, reqs = before ++ r' :: after →
        CutIn socket (r.wire.length + ((wires before).length + r'.head.length))
          (r.wire.length + ((wires before).length + r'.wire.length)) := by
  have hwires : ∀ before, (wires (r :: before)).length = r.wire.length + (wires before).length := by
    intro before
    rw [wires, List.map_cons, List.flatten_cons, List.length_append]
    rfl
  constructor
  · intro h
    refine ⟨by simpa [wires] using h [] r reqs rfl, fun before r' after heq => ?_⟩
    have := h (r :: before) r' after (by rw [heq]; rfl)
    rwa [hwires, Nat.add_assoc, Nat.add_assoc] at this
  · rintro ⟨hfirst, hrest⟩ before r' after heq
    cases before with
    | nil =>
      obtain ⟨rfl, rfl⟩ := List.cons.inj heq
      simpa [wires] using hfirst
    | cons b before =>
      obtain ⟨rfl, htail⟩ := List.cons.inj heq
      rw [hwires, Nat.add_assoc, Nat.add_assoc]
      exact hrest before r' after htail

theorem noByteLost_cons {r : WireRequest} {reqs : List WireRequest} {t : Bytes}
    {socket rest : Socket} (hread : doRead socket = some (r.value, rest))
    (h : socket.unread = r.wire ++ (wires reqs ++ t)) :
    NoByteLost (r :: reqs) t socket
      ↔ rest.unread = wires reqs ++ t ∧ NoByteLost reqs t rest := by
  have hreads : ∀ n, doReads (n + 1) socket
      = (doReads n rest).bind fun p => some (r.value :: p.1, p.2) := by
    intro n
    rw [doReads, hread]
    rfl
  constructor
  · intro hlost
    have hstep : ∀ before after, reqs = before ++ after →
        ∃ rest', doReads before.length rest = some (before.map WireRequest.value, rest') ∧
          rest'.unread = wires after ++ t := by
      intro before after heq
      obtain ⟨rest', hrun, hunread⟩ := hlost (r :: before) after (by rw [heq]; rfl)
      rw [List.length_cons, hreads] at hrun
      obtain ⟨⟨values, rest''⟩, htail, hpair⟩ := Option.bind_eq_some_iff.mp hrun
      obtain ⟨hvalues, rfl⟩ := Prod.mk.inj (Option.some.inj hpair)
      obtain rfl : values = before.map WireRequest.value := (List.cons.inj hvalues).2
      exact ⟨rest'', htail, hunread⟩
    obtain ⟨rest', hrun, hunread⟩ := hstep [] reqs rfl
    obtain ⟨-, rfl⟩ := Prod.mk.inj (Option.some.inj hrun)
    exact ⟨hunread, hstep⟩
  · rintro ⟨hunread, hlost⟩ before after heq
    cases before with
    | nil =>
      obtain rfl : r :: reqs = after := heq
      refine ⟨socket, rfl, ?_⟩
      rw [h, wires, wires, List.map_cons, List.flatten_cons, List.append_assoc]
    | cons b before =>
      obtain ⟨rfl, htail⟩ := List.cons.inj heq
      obtain ⟨rest', hrun, hunread'⟩ := hlost before after htail
      refine ⟨rest', ?_, hunread'⟩
      rw [List.length_cons, hreads, hrun]
      rfl

/-- **No byte is lost between requests** exactly when the chunks are cut between the end of each
head and the end of its request. -/
theorem noByteLost_iff (reqs : List WireRequest) (t : Bytes) (socket : Socket)
    (h : socket.unread = wires reqs ++ t) :
    NoByteLost reqs t socket ↔ CutPerRequest reqs socket := by
  induction reqs generalizing socket with
  | nil =>
    refine iff_of_true (fun before after heq => ?_) fun before r after heq => ?_
    · obtain ⟨rfl, rfl⟩ := List.nil_eq_append_iff.mp heq
      exact ⟨socket, rfl, h⟩
    · simp at heq
  | cons r reqs ih =>
    have hr : socket.unread = r.wire ++ (wires reqs ++ t) := by
      rw [h, wires, wires, List.map_cons, List.flatten_cons, List.append_assoc]
    obtain ⟨rest, hread, hcut, hcuts⟩ := doRead_spec r hr
    rw [noByteLost_cons hread hr, cutPerRequest_cons, ← hcut]
    refine and_congr_right fun hrest => ?_
    rw [ih rest hrest, CutPerRequest]
    refine forall_congr' fun before => forall_congr' fun r' => forall_congr' fun after =>
      imp_congr_right fun _ => hcuts hrest _ _ ?_
    have := r'.head_pos
    omega

/-- A request without a body. -/
def getRoot : WireRequest where
  head := bytes "GET / HTTP/1.1\r\n\r\n"
  body := []
  headEnds := by decide
  bodyLength := by decide

theorem noByteLost_iff_getRoot : NoByteLost [getRoot, getRoot] (bytes "x")
    [getRoot.wire, getRoot.wire, bytes "x"] := by
  refine (noByteLost_iff _ _ _ rfl).mpr fun before r after heq => ?_
  have hsplit : before = [] ∧ r = getRoot ∨ before = [getRoot] ∧ r = getRoot := by
    rcases before with - | ⟨b, - | ⟨b', before⟩⟩
    · exact Or.inl ⟨rfl, (List.cons.inj heq).1.symm⟩
    · obtain ⟨rfl, htail⟩ := List.cons.inj heq
      exact Or.inr ⟨rfl, (List.cons.inj htail).1.symm⟩
    · simp at heq
  rcases hsplit with ⟨rfl, rfl⟩ | ⟨rfl, rfl⟩
  · exact ⟨[getRoot.wire], [getRoot.wire, bytes "x"], rfl, by decide, by decide⟩
  · exact ⟨[getRoot.wire, getRoot.wire], [bytes "x"], rfl, by decide, by decide⟩

/-- A request and the first byte after it in one chunk: the byte is lost. -/
theorem not_noByteLost_coalesced :
    ¬ NoByteLost [getRoot] (bytes "x") [getRoot.wire ++ bytes "x"] := by
  intro h
  obtain ⟨rest, hrun, hunread⟩ := h [getRoot] [] rfl
  have hrest : (doReads 1 [getRoot.wire ++ bytes "x"]).map Prod.snd = some [] := by decide
  rw [show doReads 1 _ = _ from hrun] at hrest
  obtain rfl : rest = [] := Option.some.inj hrest
  cases hunread

end WebSocketsLib
