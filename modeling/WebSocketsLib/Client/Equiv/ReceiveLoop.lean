import WebSocketsLib.Client.Equiv.Messages
import WebSocketsLib.Client.ReceiveLoop
import WebSocketsLib.Http.Equiv.Request
import WebSocketsLib.Lib.Runs

/-!
# What the receive loop prints

`receiveLoop_eq`: whatever the server sends, the loop prints the text messages up to the first
exception and then one line more, which says whether the server has closed the connection.

`Receiving.loop_eq_receiveLoop`: on a stream that arrives in pieces the loop prints the same.
-/

namespace WebSocketsLib

open Runs WebSocketClient

/-! ### `read_message` on a stream that is still arriving -/

namespace WebSocketClient

/-- The first round of `read_message`. -/
inductive Round (a : Assembly) (s : Bytes) : Prop
  | failed (e : ClientError) (t : Bytes) (hread : readFrame.exec s = (.error e, t))
      (heq : readMessage a s = (.error e, a, t))
  | goesOn (f : WsInFrame) (t : Bytes) (hread : readFrame.exec s = (.ok f, t))
      (hround : ended (handleFrame a f).1 = [])
      (heq : readMessage a s = readMessage (handleFrame a f).2 t)
  | ends (f : WsInFrame) (t : Bytes) (out : Except ClientError WsMessage)
      (hread : readFrame.exec s = (.ok f, t)) (hround : ended (handleFrame a f).1 = [out])
      (heq : readMessage a s = (out, (handleFrame a f).2, t))

theorem round (a : Assembly) (s : Bytes) : Round a s := by
  rcases hread : readFrame.exec s with ⟨e | f, t⟩
  · exact .failed e t hread (readMessage_of_error a hread)
  · rcases ended_cases (handleFrame a f).1 with hround | ⟨out, hround⟩
    · exact .goesOn f t hread hround (readMessage_of_goesOn hread hround)
    · exact .ends f t out hread hround (readMessage_of_ended hread hround)

/-- A message that is returned has taken up some of the stream. -/
theorem length_lt_of_readMessage {a a' : Assembly} {s t : Bytes} {m : WsMessage}
    (h : readMessage a s = (.ok m, a', t)) : t.length < s.length := by
  induction hlen : s.length using Nat.strongRecOn generalizing a s with
  | ind n ih =>
    cases round a s with
    | failed e u hread heq =>
      rw [h] at heq
      cases heq
    | goesOn f u hread hround heq =>
      rw [heq] at h
      have hlt := length_lt_of_exec_readFrame hread
      exact Nat.lt_trans (ih u.length (hlen ▸ hlt) h rfl) (hlen ▸ hlt)
    | ends f u out hread hround heq =>
      rw [h] at heq
      obtain ⟨-, heq⟩ := Prod.mk.inj heq
      obtain ⟨-, rfl⟩ := Prod.mk.inj heq
      exact hlen ▸ length_lt_of_exec_readFrame hread

/-- **`read_message` does not look behind the message**: it waits for more, or does the same
whatever arrives behind what it has read. -/
theorem readMessage_arriving (a : Assembly) (s u : Bytes) :
    (readMessage a s).1 = .error .eof ∨ readMessage a (s ++ u)
      = ((readMessage a s).1, (readMessage a s).2.1, (readMessage a s).2.2 ++ u) := by
  induction hlen : s.length using Nat.strongRecOn generalizing a s with
  | ind n ih =>
    have hframe := incremental_readFrame s u
    cases round a s with
    | failed e t hread heq =>
      rw [hread] at hframe
      rcases hframe with heof | hsame
      · left
        rw [heq]
        exact congrArg _ (Except.error.inj heof)
      · right
        rw [heq, readMessage_of_error a hsame]
    | goesOn f t hread hround heq =>
      rw [hread] at hframe
      have hsame := hframe.resolve_left nofun
      have hlt := length_lt_of_exec_readFrame hread
      rw [heq, readMessage_of_goesOn hsame hround]
      exact ih t.length (hlen ▸ hlt) (handleFrame a f).2 t rfl
    | ends f t out hread hround heq =>
      rw [hread] at hframe
      have hsame := hframe.resolve_left nofun
      right
      rw [heq, readMessage_of_ended hsame hround]

end WebSocketClient

/-! ### The exceptions -/

namespace ReceiveLoop

/-- A word without digits is not found in a text with a number behind it, unless in the text. -/
theorem findEnd_append_decimal {w s : Bytes} (hw : w ≠ []) (hdigits : ∀ c ∈ w, isDigit c = false)
    (hs : Chunks.findEnd w s = none) (n : ℕ) : Chunks.findEnd w (s ++ decimal n) = none := by
  by_contra hfound
  have hin : w <:+: s := by
    apply Chunks.infix_of_infix_append hw ?_ (Chunks.findEnd_ne_none_iff.mp hfound)
    intro c hc hmem
    have hdigit := isDigit_of_mem_decimal hc
    rw [hdigits c hmem] at hdigit
    cases hdigit
  exact Chunks.findEnd_ne_none_iff.mpr hin hs

/-- A text with a number behind it is not what `what()` gives for a connection that the server has
closed, if the text is not. -/
theorem closedByServer_append_decimal {s : Bytes} (hs : closedByServer s = false) (n : ℕ) :
    closedByServer (s ++ decimal n) = false := by
  have hdigits : ∀ w ∈ [bytes "Server closed connection", bytes "stream truncated", bytes "eof",
      bytes "EOF"], ∀ c ∈ w, isDigit c = false := by decide +kernel
  unfold closedByServer at hs ⊢
  simp only [Bool.or_eq_false_iff, Option.isSome_eq_false_iff, Option.isNone_iff_eq_none,
    beq_eq_false_iff_ne] at hs ⊢
  obtain ⟨⟨⟨hne, htruncated⟩, heof⟩, hEOF⟩ := hs
  refine ⟨⟨⟨?_, ?_⟩, ?_⟩, ?_⟩
  · intro heq
    obtain ⟨c, hc⟩ := List.exists_mem_of_ne_nil _ (decimal_ne_nil n)
    have hdigit := isDigit_of_mem_decimal hc
    have hmem : c ∈ bytes "Server closed connection" := heq ▸ List.mem_append_right s hc
    rw [hdigits _ List.mem_cons_self c hmem] at hdigit
    cases hdigit
  · exact findEnd_append_decimal (by decide) (hdigits _ (by simp)) htruncated n
  · exact findEnd_append_decimal (by decide) (hdigits _ (by simp)) heof n
  · exact findEnd_append_decimal (by decide) (hdigits _ (by simp)) hEOF n

theorem bytes_append (s t : String) : bytes (s ++ t) = bytes s ++ bytes t := by
  unfold bytes
  rw [String.toList_append, List.map_append]

/-- **Which exceptions count as closed by the server**: the end of the stream and a Close frame. -/
theorem closedByServer_what (e : ClientError) :
    closedByServer e.what = decide (e = .eof ∨ e = .closed) := by
  cases e with
  | invalidOpcode opcode =>
    show closedByServer (bytes ("Invalid opcode: " ++ toString opcode.toNat)) = false
    rw [bytes_append]
    exact closedByServer_append_decimal (by decide) opcode.toNat
  | frameTooLarge len =>
    show closedByServer (bytes ("Frame too large or parse desync: len=" ++ toString len.toNat))
      = false
    rw [bytes_append]
    exact closedByServer_append_decimal (by decide) len.toNat
  | _ => decide

/-! ### The loop on a whole stream -/

/-- The last line. -/
def lastLine (e : ClientError) : Printed :=
  if e = .eof ∨ e = .closed then .connectionClosed else .error e.what

theorem handleException_what (e : ClientError) (l : ReceiveLoop) :
    l.handleException e.what
      = { l with printed := l.printed ++ [lastLine e], stopped := true } := by
  unfold handleException printException lastLine
  rw [closedByServer_what]
  by_cases he : e = .eof ∨ e = .closed
  · rw [if_pos (decide_eq_true he), if_pos he]
  · rw [if_neg (by rw [decide_eq_false he]; exact Bool.false_ne_true), if_neg he]

theorem iterate_fuel {fuel fuel' : ℕ} (l : ReceiveLoop) {s : Bytes} (h : s.length < fuel)
    (h' : s.length < fuel') : iterate fuel l s = iterate fuel' l s := by
  induction fuel generalizing fuel' l s with
  | zero => omega
  | succ fuel ih =>
    obtain ⟨fuel', rfl⟩ : ∃ m, fuel' = m + 1 := ⟨fuel' - 1, by omega⟩
    rw [iterate, iterate]
    rcases hread : readMessage l.assembly s with ⟨e | m, a, t⟩
    · rfl
    · have hlt := length_lt_of_readMessage hread
      exact ih _ (by omega) (by omega)

/-- The loop from one iteration on. -/
def goOn (l : ReceiveLoop) (s : Bytes) : ReceiveLoop :=
  iterate (s.length + 1) l s

theorem goOn_of_ok {l : ReceiveLoop} {s t : Bytes} {m : WsMessage} {a : Assembly}
    (h : readMessage l.assembly s = (.ok m, a, t)) :
    l.goOn s = goOn { l with assembly := a, printed := l.printed ++ printMessage m } t := by
  have hlt := length_lt_of_readMessage h
  rw [goOn, iterate, h]
  exact iterate_fuel _ (by omega) (Nat.lt_succ_self _)

theorem goOn_of_error {l : ReceiveLoop} {s t : Bytes} {e : ClientError} {a : Assembly}
    (h : readMessage l.assembly s = (.error e, a, t)) :
    l.goOn s = { l with assembly := a }.handleException e.what := by
  rw [goOn, iterate, h]

/-- The exception that ends the `read_message` calls on a stream. -/
inductive EndsIn : Assembly → Bytes → ClientError → Prop
  | throws {a : Assembly} {s : Bytes} (e : ClientError) (a' : Assembly) (t : Bytes)
      (h : readMessage a s = (.error e, a', t)) : EndsIn a s e
  | goesOn {a : Assembly} {s : Bytes} {e : ClientError} (m : WsMessage) (a' : Assembly) (t : Bytes)
      (h : readMessage a s = (.ok m, a', t)) (hrest : EndsIn a' t e) : EndsIn a s e

/-- **The loop from one iteration on**, up to the exception that ends it. -/
theorem goOn_eq (l : ReceiveLoop) (s : Bytes) :
    ∃ (msgs : List WsMessage) (a a' : Assembly) (t t' : Bytes) (e : ClientError),
    readMessages msgs.length l.assembly s = (msgs.map .ok, a, t) ∧
    readMessage a t = (.error e, a', t') ∧
    l.goOn s = {
      assembly := a'
      printed := l.printed ++ msgs.flatMap printMessage ++ [lastLine e]
      stopped := true } := by
  induction hlen : s.length using Nat.strongRecOn generalizing l s with
  | ind n ih =>
    rcases hread : readMessage l.assembly s with ⟨e | m, a, t⟩
    · refine ⟨[], l.assembly, a, s, t, e, rfl, hread, ?_⟩
      rw [goOn_of_error hread, handleException_what, List.flatMap_nil, List.append_nil]
    · have hlt := length_lt_of_readMessage hread
      obtain ⟨msgs, a', a'', t', t'', e, hmsgs, hlast, heq⟩ :=
        ih t.length (hlen ▸ hlt)
          { l with assembly := a, printed := l.printed ++ printMessage m } t rfl
      refine ⟨m :: msgs, a', a'', t', t'', e, ?_, hlast, ?_⟩
      · rw [List.length_cons, readMessages_succ, hread]
        dsimp only at hmsgs ⊢
        rw [hmsgs, List.map_cons]
      · rw [goOn_of_ok hread, heq, List.flatMap_cons]
        simp only [List.append_assoc]

/-- What is printed for the messages: the texts among them. -/
theorem flatMap_printMessage (msgs : List WsMessage) : msgs.flatMap printMessage
    = (msgs.filter fun m => m.opcode = 0x1).map fun m => .text m.payload := by
  induction msgs with
  | nil => rfl
  | cons m msgs ih =>
    rw [List.flatMap_cons, ih, printMessage]
    by_cases htext : m.opcode = 0x1
    · rw [if_pos htext, List.filter_cons_of_pos (by simpa using htext)]
      rfl
    · rw [if_neg htext, List.filter_cons_of_neg (by simpa using htext)]
      rfl

theorem flatMap_line_texts (msgs : List WsMessage) :
    (msgs.map fun m => Printed.text m.payload).flatMap Printed.line
      = msgs.flatMap fun m => bytes "[WS CLIENT] Text: " ++ m.payload ++ bytes "\n" := by
  rw [List.flatMap_map]
  rfl

/-- The texts go to `std::cout`. -/
theorem filter_toCerr_texts (msgs : List WsMessage) :
    (msgs.map fun m => Printed.text m.payload).filter (fun p => !p.toCerr)
        = msgs.map (fun m => .text m.payload) ∧
      (msgs.map fun m => Printed.text m.payload).filter Printed.toCerr = [] := by
  constructor
  · refine List.filter_eq_self.mpr fun p hp => ?_
    obtain ⟨m, -, rfl⟩ := List.mem_map.mp hp
    rfl
  · refine List.filter_eq_nil_iff.mpr fun p hp => ?_
    obtain ⟨m, -, rfl⟩ := List.mem_map.mp hp
    exact Bool.false_ne_true

/-- **The two streams** after the messages and the last line. -/
theorem cout_cerr_of_printed {l : ReceiveLoop} {msgs : List WsMessage} {e : ClientError}
    (h : l.printed = msgs.flatMap printMessage ++ [lastLine e]) :
    l.cout = ((msgs.filter fun m => m.opcode = 0x1).flatMap fun m =>
        bytes "[WS CLIENT] Text: " ++ m.payload ++ bytes "\n") ++
      (if e = .eof ∨ e = .closed then bytes "[WS CLIENT] Connection closed by server.\n"
        else []) ∧
    l.cerr = if e = .eof ∨ e = .closed then []
      else bytes "[WS CLIENT] Error: " ++ e.what ++ bytes "\n" := by
  obtain ⟨htexts, hnone⟩ := filter_toCerr_texts (msgs.filter fun m => m.opcode = 0x1)
  rw [flatMap_printMessage] at h
  rw [cout, cerr, h, List.filter_append, List.filter_append, htexts, hnone, List.flatMap_append,
    flatMap_line_texts, List.nil_append, lastLine]
  by_cases he : e = .eof ∨ e = .closed
  · simp only [if_pos he]
    exact ⟨rfl, rfl⟩
  · simp only [if_neg he]
    exact ⟨rfl, List.append_nil _⟩

end ReceiveLoop

open ReceiveLoop

/-- **What the receive loop prints**, whatever the server sends: it ends, having printed the text
messages that `read_message` returns up to the first exception, and one line more, which tells the
end of the stream and a Close frame from the other exceptions; only the line of another exception
goes to `std::cerr`. -/
theorem receiveLoop_eq (s : Bytes) :
    ∃ (msgs : List WsMessage) (a a' : Assembly) (t t' : Bytes) (e : ClientError),
    readMessages msgs.length {} s = (msgs.map .ok, a, t) ∧
    readMessage a t = (.error e, a', t') ∧
    receiveLoop s = {
      assembly := a'
      printed := msgs.flatMap printMessage ++ [lastLine e]
      stopped := true } ∧
    (receiveLoop s).cout = ((msgs.filter fun m => m.opcode = 0x1).flatMap fun m =>
        bytes "[WS CLIENT] Text: " ++ m.payload ++ bytes "\n") ++
      (if e = .eof ∨ e = .closed then bytes "[WS CLIENT] Connection closed by server.\n"
        else []) ∧
    (receiveLoop s).cerr = if e = .eof ∨ e = .closed then []
      else bytes "[WS CLIENT] Error: " ++ e.what ++ bytes "\n" := by
  obtain ⟨msgs, a, a', t, t', e, hmsgs, hlast, heq⟩ := goOn_eq {} s
  exact ⟨msgs, a, a', t, t', e, hmsgs, hlast, heq, cout_cerr_of_printed (congrArg printed heq)⟩

/-! ### The loop on a stream that is still arriving -/

namespace Receiving

variable {s : Bytes} {r r' : Receiving}

/-- The bytes that have arrived. -/
def arrivals (es : List Event) : Bytes :=
  es.flatMap fun
    | .arrive more => more
    | _ => []

theorem arrivals_cons (e : Event) (es : List Event) :
    arrivals (e :: es) = arrivals [e] ++ arrivals es := by
  unfold arrivals
  rw [List.flatMap_cons, List.flatMap_cons, List.flatMap_nil, List.append_nil]

/-- **On its way**: whatever may still arrive, the loop ends as it does on the whole stream. -/
structure OnItsWay (s : Bytes) (r : Receiving) : Prop where
  stopped : r.loop.stopped = true → ∀ u, (r.ended = true → u = []) →
    r.loop = receiveLoop (s ++ u)
  goOn : r.loop.stopped = false → ∀ u, (r.ended = true → u = []) →
    r.loop.goOn (r.unread ++ u) = receiveLoop (s ++ u)
  ends : r.loop.stopped = false → ∀ u, (r.ended = true → u = []) → ∀ e,
    EndsIn r.loop.assembly (r.unread ++ u) e → EndsIn {} (s ++ u) e

theorem OnItsWay.start : OnItsWay [] {} where
  stopped hstop := absurd hstop Bool.false_ne_true
  goOn _ _ _ := rfl
  ends _ _ _ _ h := h

theorem OnItsWay.arrive (h : OnItsWay s r) (hended : r.ended = false) (more : Bytes) :
    OnItsWay (s ++ more) { r with unread := r.unread ++ more } := by
  have hmore (u : Bytes) : r.ended = true → more ++ u = [] := by
    rw [hended]
    exact nofun
  refine ⟨fun hstop u _ => ?_, fun hstop u _ => ?_, fun hstop u _ => ?_⟩
  · rw [List.append_assoc]
    exact h.stopped hstop (more ++ u) (hmore u)
  · rw [List.append_assoc, List.append_assoc]
    exact h.goOn hstop (more ++ u) (hmore u)
  · rw [List.append_assoc, List.append_assoc]
    exact h.ends hstop (more ++ u) (hmore u)

theorem OnItsWay.finish (h : OnItsWay s r) : OnItsWay s { r with ended := true } := by
  refine ⟨fun hstop u hu => ?_, fun hstop u hu => ?_, fun hstop u hu => ?_⟩
  · obtain rfl := hu rfl
    exact h.stopped hstop [] fun _ => rfl
  · obtain rfl := hu rfl
    exact h.goOn hstop [] fun _ => rfl
  · obtain rfl := hu rfl
    exact h.ends hstop [] fun _ => rfl

/-- A message that is returned. -/
theorem OnItsWay.returns (h : OnItsWay s r) (hstop : r.loop.stopped = false) {m : WsMessage}
    (hread : (readMessage r.loop.assembly r.unread).1 = .ok m) : OnItsWay s (r.returns m) := by
  rcases hall : readMessage r.loop.assembly r.unread with ⟨out, a, t⟩
  rw [hall] at hread
  obtain rfl : out = .ok m := hread
  have hreturns : r.returns m = { r with
      loop := { r.loop with assembly := a, printed := r.loop.printed ++ printMessage m }
      unread := t } := by
    unfold Receiving.returns
    rw [hall]
  have hmore (u : Bytes) : readMessage r.loop.assembly (r.unread ++ u) = (.ok m, a, t ++ u) := by
    have hsame := (readMessage_arriving r.loop.assembly r.unread u).resolve_left
      (by rw [hall]; exact nofun)
    rwa [hall] at hsame
  rw [hreturns]
  refine ⟨fun hstopped => ?_, fun _ u hu => ?_, fun _ u hu e he => ?_⟩
  · exact absurd (hstop.symm.trans hstopped) Bool.false_ne_true
  · rw [← h.goOn hstop u hu, goOn_of_ok (hmore u)]
  · exact h.ends hstop u hu e (.goesOn m a (t ++ u) (hmore u) he)

/-- An exception that the end of the stream does not decide, or that comes at its end. -/
theorem OnItsWay.throws (h : OnItsWay s r) (hstop : r.loop.stopped = false) {e : ClientError}
    (hread : (readMessage r.loop.assembly r.unread).1 = .error e)
    (heof : e = .eof → r.ended = true) : OnItsWay s (r.throws e.what) := by
  rcases hall : readMessage r.loop.assembly r.unread with ⟨out, a, t⟩
  rw [hall] at hread
  obtain rfl : out = .error e := hread
  have hthrows : r.throws e.what = { r with
      loop := { r.loop with assembly := a }.handleException e.what
      unread := t } := by
    unfold Receiving.throws
    rw [hall]
  have hstopped : ({ r.loop with assembly := a }.handleException e.what).stopped = true := by
    rw [handleException_what]
  rw [hthrows]
  refine ⟨fun _ u hu => ?_, fun hno => ?_, fun hno => ?_⟩
  · have hmore : readMessage r.loop.assembly (r.unread ++ u) = (.error e, a, t ++ u) := by
      rcases readMessage_arriving r.loop.assembly r.unread u with hwait | hmore
      · rw [hall] at hwait
        obtain rfl := hu (heof (Except.error.inj hwait))
        rw [List.append_nil, List.append_nil, hall]
      · rwa [hall] at hmore
    rw [← h.goOn hstop u hu, goOn_of_error hmore]
  · exact absurd (hno.symm.trans hstopped) Bool.false_ne_true
  · exact absurd (hno.symm.trans hstopped) Bool.false_ne_true

/-- **Every step** but a failed read. -/
theorem OnItsWay.step (h : OnItsWay s r) {e : Event} (hne : ∀ message, e ≠ .readError message)
    (hstep : r.step e = some r') : OnItsWay (s ++ arrivals [e]) r' := by
  unfold Receiving.step at hstep
  cases e with
  | arrive more =>
    dsimp only at hstep
    split_ifs at hstep with hended
    obtain rfl := Option.some.inj hstep
    have harrive := h.arrive (Bool.not_eq_true _ ▸ hended) more
    rwa [arrivals, List.flatMap_singleton]
  | finish =>
    obtain rfl := Option.some.inj hstep
    rw [arrivals, List.flatMap_singleton, List.append_nil]
    exact h.finish
  | receive =>
    rw [arrivals, List.flatMap_singleton, List.append_nil]
    dsimp only at hstep
    have hstop : r.loop.stopped = false := by
      by_contra hstopped
      rw [if_pos (Bool.not_eq_false _ ▸ hstopped)] at hstep
      cases hstep
    rw [hstop, if_neg Bool.false_ne_true] at hstep
    cases hread : (readMessage r.loop.assembly r.unread).1 with
    | ok m =>
      rw [hread] at hstep
      obtain rfl := Option.some.inj hstep
      exact h.returns hstop hread
    | error e =>
      rw [hread] at hstep
      cases e with
      | eof =>
        dsimp only at hstep
        split_ifs at hstep with hended
        obtain rfl := Option.some.inj hstep
        exact h.throws hstop hread fun _ => hended
      | _ =>
        obtain rfl := Option.some.inj hstep
        exact h.throws hstop hread nofun
  | readError message => exact absurd rfl (hne message)

theorem OnItsWay.run {es : List Event} (h : OnItsWay s r)
    (hne : ∀ message, .readError message ∉ es) (hrun : Runs.run Receiving.step r es = some r') :
    OnItsWay (s ++ arrivals es) r' := by
  induction es generalizing s r with
  | nil =>
    obtain rfl : r = r' := Option.some.inj hrun
    rw [arrivals, List.flatMap_nil, List.append_nil]
    exact h
  | cons e es ih =>
    obtain ⟨r₁, h₁, hrun⟩ := run_cons_eq_some hrun
    rw [arrivals_cons, ← List.append_assoc]
    apply ih (h.step ?_ h₁) (fun message hmem => hne message (List.mem_cons_of_mem e hmem)) hrun
    rintro message rfl
    exact hne message List.mem_cons_self

/-- **The receive loop does not depend on how the stream arrives**: unless a read fails, it has
printed the beginning of what it prints for the whole stream, and all of it when it has ended. -/
theorem loop_eq_receiveLoop (es : List Event) (hne : ∀ message, .readError message ∉ es)
    (hrun : Runs.run Receiving.step {} es = some r) :
    r.loop.printed <+: (receiveLoop (arrivals es)).printed ∧
      (r.loop.stopped = true → r.loop = receiveLoop (arrivals es)) := by
  have h : OnItsWay (arrivals es) r := OnItsWay.start.run hne hrun
  have hwhole (hstop : r.loop.stopped = true) : r.loop = receiveLoop (arrivals es) := by
    have hloop := h.stopped hstop [] fun _ => rfl
    rwa [List.append_nil] at hloop
  refine ⟨?_, hwhole⟩
  cases hstop : r.loop.stopped with
  | true =>
    simp only [← hwhole hstop, List.prefix_rfl]
  | false =>
    have hloop := h.goOn hstop [] fun _ => rfl
    obtain ⟨msgs, a, a', t, t', e, -, -, heq⟩ := goOn_eq r.loop (r.unread ++ [])
    rw [List.append_nil (arrivals es)] at hloop
    rw [← hloop, heq, List.append_assoc]
    exact List.prefix_append _ _

/-- A message in two parts, and a frame with an unknown opcode. -/
def inParts : List Event :=
  [.arrive [0x81, 2, 104], .arrive [105, 0x83, 0], .receive, .receive, .finish]

def inPartsEnd : Receiving where
  loop := {
    assembly := { opcode := 1 }
    printed := [.text (bytes "hi"), .error (bytes "Invalid opcode: 3")]
    stopped := true }
  ended := true

theorem loop_eq_receiveLoop_inParts :
    inPartsEnd.loop.printed <+: (receiveLoop (arrivals inParts)).printed ∧
      (inPartsEnd.loop.stopped = true → inPartsEnd.loop = receiveLoop (arrivals inParts)) :=
  loop_eq_receiveLoop inParts (fun message hmem => by simp [inParts] at hmem) (r := inPartsEnd)
    (by decide)

end Receiving

end WebSocketsLib
