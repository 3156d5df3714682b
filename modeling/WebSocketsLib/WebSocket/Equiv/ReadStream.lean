import WebSocketsLib.Lib.Runs
import WebSocketsLib.WebSocket.Equiv.Connection
import WebSocketsLib.WebSocket.ReadStream

/-!
# What a peer can make the server buffer

`bounded_iff`: the buffer for the payload and the space reserved for the message stay within the
size limit exactly when no header that the loop reads announces more.
-/

namespace WebSocketsLib

open Runs

/-- The header of a frame announces the length that the frame has. -/
theorem announcedLength_of_decodeFrame {s t : Bytes} {f : WsFrame}
    (h : decodeFrame s = some (f, t)) : announcedLength s = some f.payloadLength := by
  unfold decodeFrame at h
  obtain ⟨⟨header, s₁⟩, hheader, h⟩ := Option.bind_eq_some_iff.mp h
  obtain ⟨⟨p, s₂⟩, hp, h⟩ := Option.bind_eq_some_iff.mp h
  obtain ⟨⟨payload, s₃⟩, -, h⟩ := Option.bind_eq_some_iff.mp h
  obtain ⟨rfl, -⟩ := Prod.mk.inj (Option.some.inj h)
  unfold announcedLength
  apply Option.bind_eq_some_iff.mpr ⟨(header, s₁), hheader, ?_⟩
  exact Option.bind_eq_some_iff.mpr ⟨(p, s₂), hp, rfl⟩

/-- Only the data branch reserves, and it reserves the announced length. -/
theorem reserved_handleParsedFrame (handlers : WsHandlers) (f : WsFrame) (fb : FrameBody) :
    (handleParsedFrame handlers f fb).1.reserved = fb.reserved ∨
      (handleParsedFrame handlers f fb).1.reserved = f.payloadLength.toNat := by
  have hdeliver : ∀ fb : FrameBody, (appendAndDeliver handlers f fb).1.reserved = fb.reserved := by
    intro fb
    unfold appendAndDeliver
    cases happend : fb.append f.payloadData with
    | none => rfl
    | some fb' =>
      have hreserved : fb'.reserved = fb.reserved := by
        unfold FrameBody.append at happend
        split_ifs at happend
        obtain rfl := Option.some.inj happend
        rfl
      dsimp only
      split_ifs
      · exact hreserved
      · exact hreserved
      · exact hreserved
  unfold handleParsedFrame
  split_ifs
  · exact Or.inl rfl
  · exact Or.inl rfl
  · exact Or.inl rfl
  · exact Or.inl rfl
  · exact Or.inl rfl
  · exact Or.inl rfl
  · exact Or.inl rfl
  · rw [hdeliver]
    unfold FrameBody.start
    dsimp only
    split_ifs
    · exact Or.inl rfl
    · exact Or.inr rfl
  · exact Or.inl (hdeliver fb)
  · exact Or.inl (hdeliver fb)
  · exact Or.inl rfl

/-! ### The connection -/

namespace Conn

variable {app : App} {c c' : Conn}

/-- The frame that has been read, while the read loop has it. -/
theorem keeps_got (app : App) (p : WsFrame → Prop) :
    Keeps app (fun _ => True) (fun c => ∀ f, c.readLoop = .got f → p f) where
  spawn _ h := h
  close {c} {q} code reason _ h := by
    rcases close_cases app c q code reason with ⟨-, heq⟩ | ⟨-, tasks, heq⟩
    · rwa [heq]
    · rw [heq]
      exact h
  onMessage _ _ h := h
  onClose _ _ _ h := h
  push _ _ h := h
  enterWriting {c} frame owner rest _ _ h := by
    cases owner with
    | readLoop =>
      intro f hgot
      cases hgot
    | task => exact h
  finish {c} owner h := by
    cases owner with
    | readLoop =>
      intro f hgot
      unfold Conn.finish at hgot
      dsimp only at hgot
      split_ifs at hgot
    | task => exact h

/-- **Every step** leaves the read loop with the frame that it has read, or with the one that is
read now. -/
theorem got_step {p : WsFrame → Prop} {e : Event} (h : ∀ f, c.readLoop = .got f → p f)
    (hrecv : ∀ f, e = .recv f → p f) (hstep : step app c e = some c') :
    ∀ f, c'.readLoop = .got f → p f := by
  have hk := keeps_got app p
  cases stepped_of_step hstep with
  | start hnot => exact hk.start (fun _ => h) fun _ => h
  | call k => exact hk.call k h
  | recv f hreading hopen =>
    rintro f' ⟨rfl⟩
    exact hrecv f rfl
  | readError hreading =>
    intro f hgot
    cases hgot
  | resume f hgot =>
    apply hk.runEffects .readLoop (fun _ _ => trivial) none
    exact h
  | runTask t tasks htasks =>
    apply hk.runEffects .task (fun _ _ => trivial) none
    exact h
  | writeLast k w hw hq =>
    apply hk.runEffects w.owner (fun _ _ => trivial) (some w.queuedAt)
    exact h
  | writeNext k w buf queue hw hq => exact h
  | writeFail k w hw =>
    show ∀ f, (if w.owner = .readLoop then ReadLoop.threw else c.readLoop) = .got f → _
    split_ifs
    · intro f hgot
      cases hgot
    · exact h

/-- The coroutines leave the `FrameBody` alone, once the frame has been handled. -/
theorem keeps_fb (app : App) (p : FrameBody → Prop) :
    Keeps app (fun _ => True) (fun c => p c.fb) where
  spawn _ h := h
  close {c} {q} code reason _ h := by
    rcases close_cases app c q code reason with ⟨-, heq⟩ | ⟨-, tasks, heq⟩
    · rwa [heq]
    · rw [heq]
      exact h
  onMessage _ _ h := h
  onClose _ _ _ h := h
  push _ _ h := h
  enterWriting _ _ _ _ _ h := h
  finish owner h := by
    cases owner with
    | readLoop => exact h
    | task => exact h

/-- What has been reserved, and what the frame that has been read may reserve. -/
structure SizesBounded (c : Conn) : Prop where
  reserved : c.fb.reserved ≤ maxMsgSize
  got : ∀ f, c.readLoop = .got f → f.payloadLength.toNat ≤ maxMsgSize

/-- **Every step** keeps the sizes within the limit, if the frame that is read is. -/
theorem sizesBounded_step {e : Event} (h : c.SizesBounded)
    (hrecv : ∀ f, e = .recv f → f.payloadLength.toNat ≤ maxMsgSize)
    (hstep : step app c e = some c') : c'.SizesBounded := by
  have hk := keeps_fb app (fun fb => fb.reserved ≤ maxMsgSize)
  refine ⟨?_, got_step h.got hrecv hstep⟩
  cases stepped_of_step hstep with
  | start hnot => exact hk.start (fun _ => h.reserved) fun _ => h.reserved
  | call k => exact hk.call k h.reserved
  | recv f hreading hopen => exact h.reserved
  | readError hreading => exact h.reserved
  | resume f hgot =>
    apply hk.runEffects .readLoop (fun _ _ => trivial) none
    show (handleParsedFrame app.handlers f c.fb).1.reserved ≤ maxMsgSize
    rcases reserved_handleParsedFrame app.handlers f c.fb with hsame | hlen
    · rw [hsame]
      exact h.reserved
    · rw [hlen]
      exact h.got f hgot
  | runTask t tasks htasks =>
    apply hk.runEffects .task (fun _ _ => trivial) none
    exact h.reserved
  | writeLast k w hw hq =>
    apply hk.runEffects w.owner (fun _ _ => trivial) (some w.queuedAt)
    exact h.reserved
  | writeNext k w buf queue hw hq => exact h.reserved
  | writeFail k w hw => exact h.reserved

/-- The `WebSocket` as it is constructed. -/
theorem sizesBounded_empty : SizesBounded {} :=
  ⟨Nat.zero_le _, fun _ hgot => by cases hgot⟩

end Conn

/-! ### The stream -/

namespace ReadStream

variable {app : App} {r r' : ReadStream}

/-- A frame that has arrived can be read. -/
theorem header_or_payload {f : WsFrame} {t : Bytes} (hreading : r.conn.readLoop = .reading)
    (hopen : r.conn.state = .wsOpen) (hdecode : decodeFrame r.unread = some (f, t)) :
    r.step app .header ≠ none ∨ r.step app .payload ≠ none := by
  cases hread : r.headerRead with
  | false =>
    left
    rw [ReadStream.step, if_pos ⟨hreading, hopen, hread⟩, announcedLength_of_decodeFrame hdecode]
    exact Option.some_ne_none _
  | true =>
    right
    rw [ReadStream.step, if_pos hread, hdecode]
    show (r.conn.step app (.recv f)).bind _ ≠ none
    rw [Conn.step, if_pos ⟨hreading, hopen⟩]
    exact Option.some_ne_none _

/-- The buffer for the payload and the space reserved for the message are within the limit. -/
def Bounded (r : ReadStream) : Prop :=
  r.resized ≤ maxMsgSize ∧ r.conn.fb.reserved ≤ maxMsgSize

/-- A header that is read announces a payload within the limit. -/
def AnnouncesBounded (r : ReadStream) : Event → Prop
  | .header => ∀ len, announcedLength r.unread = some len → len.toNat ≤ maxMsgSize
  | _ => True

/-- The other events are those of the connection, a frame that is read apart. -/
theorem step_conn_eq_some {e : Conn.Event} (hstep : r.step app (.conn e) = some r') :
    ∃ conn, (∀ f, e ≠ .recv f) ∧ r.conn.step app e = some conn ∧ r' = { r with conn } := by
  have hother (hne : ∀ f, e ≠ .recv f)
      (h : (r.conn.step app e).map (fun conn => { r with conn }) = some r') :
      ∃ conn, (∀ f, e ≠ .recv f) ∧ r.conn.step app e = some conn ∧ r' = { r with conn } := by
    obtain ⟨conn, hconn, rfl⟩ := Option.map_eq_some_iff.mp h
    exact ⟨conn, hne, hconn, rfl⟩
  cases e with
  | recv f => exact absurd hstep (Option.some_ne_none r').symm
  | _ => exact hother (fun _ h => Conn.Event.noConfusion h) hstep

/-- What bounds the sizes: the header that has been read announced a payload within the limit. -/
structure SizeInv (r : ReadStream) : Prop where
  resized : r.resized ≤ maxMsgSize
  conn : r.conn.SizesBounded
  header : r.headerRead = true → ∀ len, announcedLength r.unread = some len → len.toNat ≤ maxMsgSize

theorem sizeInv_step {e : Event} (h : r.SizeInv) (hok : r.AnnouncesBounded e)
    (hstep : r.step app e = some r') : r'.SizeInv := by
  cases e with
  | header =>
    unfold step at hstep
    dsimp only at hstep
    split_ifs at hstep with hready
    obtain ⟨len, hlen, rfl⟩ := Option.map_eq_some_iff.mp hstep
    exact ⟨hok len hlen, h.conn, fun _ => hok⟩
  | payload =>
    unfold step at hstep
    dsimp only at hstep
    split_ifs at hstep with hread
    obtain ⟨⟨f, unread⟩, hdecode, hstep⟩ := Option.bind_eq_some_iff.mp hstep
    obtain ⟨conn, hconn, hstep⟩ := Option.bind_eq_some_iff.mp hstep
    obtain rfl := Option.some.inj hstep
    have hlen : f.payloadLength.toNat ≤ maxMsgSize :=
      h.header hread _ (announcedLength_of_decodeFrame hdecode)
    refine ⟨h.resized, ?_, ?_⟩
    · apply Conn.sizesBounded_step h.conn ?_ hconn
      rintro f' ⟨rfl⟩
      exact hlen
    · intro hno
      cases hno
  | conn e =>
    obtain ⟨conn, hne, hconn, rfl⟩ := step_conn_eq_some hstep
    refine ⟨h.resized, ?_, h.header⟩
    apply Conn.sizesBounded_step h.conn ?_ hconn
    intro f he
    exact absurd he (hne f)

/-- A header that announces more than the limit is followed by a `resize` beyond it. -/
theorem announcesBounded_of_bounded {e : Event} (hstep : r.step app e = some r')
    (hr' : r'.Bounded) : r.AnnouncesBounded e := by
  cases e with
  | header =>
    unfold step at hstep
    dsimp only at hstep
    split_ifs at hstep
    obtain ⟨len, hlen, rfl⟩ := Option.map_eq_some_iff.mp hstep
    intro len' hlen'
    obtain rfl : len = len' := Option.some.inj (hlen.symm.trans hlen')
    exact hr'.1
  | payload => trivial
  | conn e => trivial

theorem sizeInv_empty (s : Bytes) : SizeInv { unread := s } := by
  refine ⟨Nat.zero_le _, Conn.sizesBounded_empty, ?_⟩
  intro hno
  cases hno

/-- **The size limit bounds what a peer can make the server buffer** -/
theorem bounded_iff (app : App) (s : Bytes) (es : List Event) {r : ReadStream}
    (hrun : run (step app) { unread := s } es = some r) :
    (∀ before r', before <+: es → run (step app) { unread := s } before = some r' → r'.Bounded) ↔
      Guarded (step app) AnnouncesBounded { unread := s } es :=
  forall_prefix_iff_guarded sizeInv_step (fun h => ⟨h.resized, h.conn.reserved⟩)
    announcesBounded_of_bounded (sizeInv_empty s) hrun

/-- A text message of two bytes. -/
theorem bounded_iff_twoBytes :
    (∀ before r', before <+: [.conn .start, .header, .payload, .conn .resume] →
      run (step { handlers := {} }) { unread := [0x81, 0x02, 0x68, 0x69] } before = some r' →
        r'.Bounded) ↔
      Guarded (step { handlers := {} }) AnnouncesBounded { unread := [0x81, 0x02, 0x68, 0x69] }
        [.conn .start, .header, .payload, .conn .resume] :=
  bounded_iff { handlers := {} } _ _ (r := {
    conn := { readLoop := .reading, fb := { maxSize := maxMsgSize, reserved := 2 } }
    unread := []
    resized := 2 }) (by decide)

/-- A header that announces one byte more than the limit. -/
theorem not_bounded_oneByteMore :
    ¬ ∀ (app : App) (s : Bytes) (es : List Event) (r : ReadStream),
      run (step app) { unread := s } es = some r → r.Bounded := by
  intro h
  have hbounded := h { handlers := {} } [0x81, 0x7F, 0, 0, 0, 0, 0, 0xA0, 0, 1]
    [.conn .start, .header]
    { conn := { readLoop := .reading }
      unread := [0x81, 0x7F, 0, 0, 0, 0, 0, 0xA0, 0, 1]
      headerRead := true
      resized := 10 * 1024 * 1024 + 1 } (by decide)
  exact absurd hbounded.1 (by decide)

end ReadStream

end WebSocketsLib
