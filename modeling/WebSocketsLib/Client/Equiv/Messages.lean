import WebSocketsLib.Client.Equiv.Frames
import Mathlib.Data.List.Forall2
import Mathlib.Data.List.Induction

/-!
# The messages of `read_message`

`readMessages_reassemble`: whatever `read_frame` returns, the messages that calls of `read_message`
return come from disjoint stretches of the frames, each made of one TEXT or BINARY frame and what
continues it up to the first final CONT frame; and a sequence made of whole messages, with control
frames anywhere, is returned message by message.

`Gives` says what a stretch of frames is for; `assemble` is what the members do over a sequence of
frames.  Any sequence is cut into stretches (`exists_pieces`), a stretch gives its outcome and
leaves no message open (`assemble_of_gives`), and the calls of `read_message` give the outcomes of
`assemble` (`readMessages_assemble`, `readMessages_of_readFrames`).
-/

namespace WebSocketsLib

/-- A TEXT or BINARY frame. -/
def WsInFrame.IsData (f : WsInFrame) : Prop :=
  f.opcode = 0x1 ∨ f.opcode = 0x2

/-- A PING or PONG frame. -/
def WsInFrame.IsControl (f : WsInFrame) : Prop :=
  f.opcode = 0x9 ∨ f.opcode = 0xA

/-- A frame inside a message that goes on behind it. -/
def WsInFrame.Continues (f : WsInFrame) : Prop :=
  f.IsControl ∨ f.opcode = 0x0 ∧ f.fin = false

instance (f : WsInFrame) : Decidable f.IsData := inferInstanceAs (Decidable (_ ∨ _))

instance (f : WsInFrame) : Decidable f.IsControl := inferInstanceAs (Decidable (_ ∨ _))

instance (f : WsInFrame) : Decidable f.Continues := inferInstanceAs (Decidable (_ ∨ _))

namespace WebSocketClient

/-! ### Stretches of frames -/

/-- The payloads of the CONT frames, joined. -/
def contPayload (fs : List WsInFrame) : Bytes :=
  ((fs.filter fun f => f.opcode = 0x0).map WsInFrame.payload).flatten

/-- What a stretch of frames gives to the callers of `read_message`. -/
inductive Gives : List WsInFrame → List (Except ClientError WsMessage) → Prop
  /-- A control frame, or a CONT frame that continues nothing. -/
  | skipped {f : WsInFrame} (h : f.IsControl ∨ f.opcode = 0x0) : Gives [f] []
  /-- A message in one frame. -/
  | single {f : WsInFrame} (h : f.IsData) (hfin : f.fin = true) :
      Gives [f] [.ok { opcode := f.opcode, payload := f.payload }]
  /-- A message in several frames, up to the first final CONT frame. -/
  | fragmented {first last : WsInFrame} {mid : List WsInFrame} (h : first.IsData)
      (hopen : first.fin = false) (hmid : ∀ f ∈ mid, f.Continues) (hlast : last.opcode = 0x0)
      (hfin : last.fin = true) : Gives (first :: (mid ++ [last])) [.ok {
        opcode := first.opcode
        payload := first.payload ++ contPayload mid ++ last.payload }]
  /-- A message that another data frame cuts off. -/
  | interrupted {first last : WsInFrame} {mid : List WsInFrame} (h : first.IsData)
      (hopen : first.fin = false) (hmid : ∀ f ∈ mid, f.Continues) (hlast : last.IsData) :
      Gives (first :: (mid ++ [last])) [.error .expectedContinuation]

/-- The beginning of a message, or nothing. -/
def Unfinished (fs : List WsInFrame) : Prop :=
  fs = [] ∨ ∃ first mid, fs = first :: mid ∧ first.IsData ∧ first.fin = false ∧
    ∀ f ∈ mid, f.Continues

/-- The opcodes that `read_frame` returns. -/
def Taken (f : WsInFrame) : Prop :=
  f.IsData ∨ f.IsControl ∨ f.opcode = 0x0

/-- **Any sequence of frames** is cut into stretches, up to the beginning of a message. -/
theorem exists_pieces (fs : List WsInFrame) (h : ∀ f ∈ fs, Taken f) :
    ∃ pieces outs rest, fs = pieces.flatten ++ rest ∧ List.Forall₂ Gives pieces outs ∧
      Unfinished rest := by
  induction fs using List.reverseRecOn with
  | nil => exact ⟨[], [], [], rfl, .nil, Or.inl rfl⟩
  | append_singleton fs f ih =>
    obtain ⟨pieces, outs, rest, hfs, hgives, hrest⟩ :=
      ih fun g hg => h g (List.mem_append_left _ hg)
    have htaken : Taken f := h f (List.mem_append_right _ (List.mem_singleton_self f))
    -- the beginning of a message and the frame behind it, when they make a stretch
    have hclose : ∀ out, Gives (rest ++ [f]) out → ∃ pieces' outs' rest', fs ++ [f]
        = pieces'.flatten ++ rest' ∧ List.Forall₂ Gives pieces' outs' ∧ Unfinished rest' := by
      intro out hout
      refine ⟨pieces ++ [rest ++ [f]], outs ++ [out], [], ?_, ?_, Or.inl rfl⟩
      · rw [List.flatten_append, List.flatten_singleton, hfs, List.append_nil, List.append_assoc]
      · exact List.rel_append hgives (.cons hout .nil)
    have hgrow : Unfinished (rest ++ [f]) → ∃ pieces' outs' rest', fs ++ [f]
        = pieces'.flatten ++ rest' ∧ List.Forall₂ Gives pieces' outs' ∧ Unfinished rest' := by
      intro hunfinished
      refine ⟨pieces, outs, rest ++ [f], ?_, hgives, hunfinished⟩
      rw [hfs, List.append_assoc]
    rcases hrest with rfl | ⟨first, mid, rfl, hfirst, hopen, hmid⟩
    · rcases htaken with hdata | hskip
      · by_cases hfin : f.fin = true
        · exact hclose _ (.single hdata hfin)
        · have hopen : f.fin = false := Bool.not_eq_true _ ▸ hfin
          exact hgrow (Or.inr ⟨f, [], rfl, hdata, hopen, fun _ hg => nomatch hg⟩)
      · exact hclose _ (.skipped hskip)
    · have hcontinues : f.Continues → Unfinished (first :: mid ++ [f]) := by
        intro hf
        refine Or.inr ⟨first, mid ++ [f], rfl, hfirst, hopen, fun g hg => ?_⟩
        rcases List.mem_append.mp hg with hg | hg
        · exact hmid g hg
        · rwa [List.mem_singleton.mp hg]
      rcases htaken with hdata | hcontrol | hcont
      · exact hclose _ (.interrupted hfirst hopen hmid hdata)
      · exact hgrow (hcontinues (Or.inl hcontrol))
      · by_cases hfin : f.fin = true
        · exact hclose _ (.fragmented hfirst hopen hmid hcont hfin)
        · exact hgrow (hcontinues (Or.inr ⟨hcont, Bool.not_eq_true _ ▸ hfin⟩))

/-! ### The members over a sequence of frames -/

/-- The outcome of `read_message` that a round of its loop gives, if it ends the loop. -/
def ended : Except ClientError (Option WsMessage) → List (Except ClientError WsMessage)
  | .error e => [.error e]
  | .ok (some m) => [.ok m]
  | .ok none => []

/-- The rounds for the frames `fs`: the members after them, and the outcomes that they give. -/
def assemble : Assembly → List WsInFrame → Assembly × List (Except ClientError WsMessage)
  | a, [] => (a, [])
  | a, f :: fs =>
    ((assemble (handleFrame a f).2 fs).1,
      ended (handleFrame a f).1 ++ (assemble (handleFrame a f).2 fs).2)

theorem assemble_append (a : Assembly) (fs gs : List WsInFrame) :
    assemble a (fs ++ gs) = ((assemble (assemble a fs).1 gs).1,
      (assemble a fs).2 ++ (assemble (assemble a fs).1 gs).2) := by
  induction fs generalizing a with
  | nil => rfl
  | cons f fs ih => simp only [List.cons_append, assemble, ih, List.append_assoc]

theorem handleFrame_control (a : Assembly) {f : WsInFrame} (h : f.IsControl) :
    handleFrame a f = (.ok none, a) := by
  unfold handleFrame
  rcases h with h | h
  · rw [h]
    rfl
  · rw [h]
    rfl

theorem handleFrame_cont {a : Assembly} {f : WsInFrame} (h : f.opcode = 0x0) :
    handleFrame a f = if !a.assembling then (.ok none, a)
      else if f.fin then
        (.ok (some { opcode := a.opcode, payload := a.buf ++ f.payload }),
          { a with assembling := false, buf := [] })
      else (.ok none, { a with buf := a.buf ++ f.payload }) := by
  unfold handleFrame
  rw [h]
  rfl

/-- Frames inside a message add to the buffer and give nothing. -/
theorem assemble_of_continues {mid : List WsInFrame} (hmid : ∀ f ∈ mid, f.Continues)
    {a : Assembly} (ha : a.assembling = true) :
    assemble a mid = ({ a with buf := a.buf ++ contPayload mid }, []) := by
  induction mid generalizing a with
  | nil => simp [assemble, contPayload]
  | cons f mid ih =>
    have htail : ∀ g ∈ mid, g.Continues := fun g hg => hmid g (List.mem_cons_of_mem _ hg)
    rw [assemble]
    rcases hmid f (List.mem_cons_self ..) with hcontrol | ⟨hcont, hfin⟩
    · have hskip : f.opcode ≠ 0x0 := by
        rcases hcontrol with h | h <;> rw [h] <;> decide
      have hpayload : contPayload (f :: mid) = contPayload mid := by
        rw [contPayload, List.filter_cons_of_neg (by simpa using hskip)]
        rfl
      rw [handleFrame_control a hcontrol, ih htail ha, hpayload]
      rfl
    · have hpayload : contPayload (f :: mid) = f.payload ++ contPayload mid := by
        rw [contPayload, List.filter_cons_of_pos (by simpa using hcont)]
        rfl
      have hround : handleFrame a f = (.ok none, { a with buf := a.buf ++ f.payload }) := by
        rw [handleFrame_cont hcont, ha, hfin]
        rfl
      have hnext := ih htail (show ({ a with buf := a.buf ++ f.payload } : Assembly).assembling
        = true from ha)
      rw [hround, hnext, hpayload, ended, List.nil_append, List.append_assoc]

/-- The beginning of a message is held by the members. -/
theorem assemble_beginning {first : WsInFrame} {mid : List WsInFrame} (h : first.IsData)
    (hopen : first.fin = false) (hmid : ∀ f ∈ mid, f.Continues) {a : Assembly}
    (ha : a.assembling = false) : assemble a (first :: mid) = ({
      assembling := true
      opcode := first.opcode
      buf := first.payload ++ contPayload mid }, []) := by
  have hround : handleFrame a first
      = (.ok none, { assembling := true, opcode := first.opcode, buf := first.payload }) := by
    rw [handleFrame_data h, ha, hopen]
    rfl
  rw [assemble, hround]
  dsimp only
  rw [assemble_of_continues hmid rfl]
  rfl

/-- **A stretch** gives its outcome and leaves no message open. -/
theorem assemble_of_gives {part : List WsInFrame} {out : List (Except ClientError WsMessage)}
    (h : Gives part out) {a : Assembly} (ha : a.assembling = false) :
    (assemble a part).2 = out ∧ (assemble a part).1.assembling = false := by
  cases h with
  | skipped h =>
    have hround : ∀ f : WsInFrame, f.IsControl ∨ f.opcode = 0x0 →
        handleFrame a f = (.ok none, a) := by
      intro f h
      rcases h with hcontrol | hcont
      · exact handleFrame_control a hcontrol
      · rw [handleFrame_cont hcont, ha]
        rfl
    rw [assemble, hround _ h]
    exact ⟨rfl, ha⟩
  | single h hfin =>
    rw [assemble, handleFrame_data h, ha, hfin]
    exact ⟨rfl, rfl⟩
  | fragmented h hopen hmid hlast hfin =>
    rw [← List.cons_append, assemble_append, assemble_beginning h hopen hmid ha, assemble,
      handleFrame_cont hlast, hfin]
    exact ⟨rfl, rfl⟩
  | interrupted h hopen hmid hlast =>
    rw [← List.cons_append, assemble_append, assemble_beginning h hopen hmid ha, assemble,
      handleFrame_data hlast]
    exact ⟨rfl, rfl⟩

theorem assemble_pieces {pieces : List (List WsInFrame)}
    {outs : List (List (Except ClientError WsMessage))} (h : List.Forall₂ Gives pieces outs)
    {a : Assembly} (ha : a.assembling = false) :
    (assemble a pieces.flatten).2 = outs.flatten ∧
      (assemble a pieces.flatten).1.assembling = false := by
  induction h generalizing a with
  | nil => exact ⟨rfl, ha⟩
  | cons hpart _ ih =>
    obtain ⟨hout, hidle⟩ := assemble_of_gives hpart ha
    obtain ⟨houts, hidles⟩ := ih hidle
    rw [List.flatten_cons, assemble_append, hout, houts, List.flatten_cons]
    exact ⟨rfl, hidles⟩

theorem assemble_unfinished {rest : List WsInFrame} (h : Unfinished rest) {a : Assembly}
    (ha : a.assembling = false) : (assemble a rest).2 = [] := by
  rcases h with rfl | ⟨first, mid, rfl, hfirst, hopen, hmid⟩
  · rfl
  · rw [assemble_beginning hfirst hopen hmid ha]

/-- Control frames change nothing. -/
theorem assemble_filter (a : Assembly) (fs : List WsInFrame) :
    assemble a (fs.filter fun f => ¬f.IsControl) = assemble a fs := by
  induction fs generalizing a with
  | nil => rfl
  | cons f fs ih =>
    by_cases hcontrol : f.IsControl
    · rw [List.filter_cons_of_neg (by simpa using hcontrol), ih, assemble,
        handleFrame_control a hcontrol]
      rfl
    · rw [List.filter_cons_of_pos (by simpa using hcontrol), assemble, assemble, ih]

/-! ### The calls -/

/-- A frame that is returned has taken bytes from the stream. -/
theorem length_lt_of_exec_readFrame {s t : Bytes} {f : WsInFrame}
    (h : readFrame.exec s = (.ok f, t)) : t.length < s.length := by
  obtain ⟨b0, b1, ext, key, payload, rfl, -⟩ := exists_of_exec_readFrame h
  simp only [List.length_cons, List.length_append]
  omega

theorem taken_of_exec_readFrame {s t : Bytes} {f : WsInFrame}
    (h : readFrame.exec s = (.ok f, t)) : Taken f := by
  have htaken : ∀ opcode : UInt8, knownOpcode opcode = true → opcode ≠ 0x8 →
      (opcode = 0x1 ∨ opcode = 0x2) ∨ (opcode = 0x9 ∨ opcode = 0xA) ∨ opcode = 0x0 := by
    intro opcode hknown hopen
    simp only [knownOpcode, Bool.or_eq_true, beq_iff_eq] at hknown
    tauto
  obtain ⟨b0, b1, ext, key, payload, rfl, hrsv, hknown, hopen, hext, hkey, hmax, hlen⟩ :=
    exists_of_exec_readFrame h
  rw [exec_readFrame_append hrsv hknown hopen hext hkey hmax hlen] at h
  obtain rfl := Except.ok.inj (Prod.mk.inj h).1
  exact htaken _ hknown hopen

/-- The fuel does not matter, if it is enough for every byte. -/
theorem readMessageLoop_fuel {fuel fuel' : ℕ} (a : Assembly) {s : Bytes} (h : s.length < fuel)
    (h' : s.length < fuel') : readMessageLoop fuel a s = readMessageLoop fuel' a s := by
  induction fuel generalizing fuel' a s with
  | zero => omega
  | succ fuel ih =>
    obtain ⟨fuel', rfl⟩ : ∃ m, fuel' = m + 1 := ⟨fuel' - 1, by omega⟩
    rw [readMessageLoop, readMessageLoop]
    rcases hread : readFrame.exec s with ⟨e | f, t⟩
    · rfl
    · have hlt := length_lt_of_exec_readFrame hread
      dsimp only
      rcases handleFrame a f with ⟨e | _ | m, a'⟩
      · rfl
      · exact ih a' (by omega) (by omega)
      · rfl

/-- A round that does not end the loop. -/
theorem readMessage_of_goesOn {a : Assembly} {s t : Bytes} {f : WsInFrame}
    (h : readFrame.exec s = (.ok f, t)) (hround : ended (handleFrame a f).1 = []) :
    readMessage a s = readMessage (handleFrame a f).2 t := by
  have hlt := length_lt_of_exec_readFrame h
  rw [readMessage, readMessageLoop, h]
  dsimp only
  rcases hhandle : handleFrame a f with ⟨e | _ | m, a'⟩
  · rw [hhandle] at hround
    cases hround
  · exact readMessageLoop_fuel a' hlt (Nat.lt_succ_self _)
  · rw [hhandle] at hround
    cases hround

/-- A round that ends the loop. -/
theorem readMessage_of_ended {a : Assembly} {s t : Bytes} {f : WsInFrame}
    {out : Except ClientError WsMessage} (h : readFrame.exec s = (.ok f, t))
    (hround : ended (handleFrame a f).1 = [out]) :
    readMessage a s = (out, (handleFrame a f).2, t) := by
  rw [readMessage, readMessageLoop, h]
  dsimp only
  rcases hhandle : handleFrame a f with ⟨e | _ | m, a'⟩
  · rw [hhandle] at hround
    rw [← List.singleton_inj.mp hround]
  · rw [hhandle] at hround
    cases hround
  · rw [hhandle] at hround
    rw [← List.singleton_inj.mp hround]

/-- A round ends the loop or does not. -/
theorem ended_cases (r : Except ClientError (Option WsMessage)) :
    ended r = [] ∨ ∃ out, ended r = [out] := by
  rcases r with e | _ | m
  · exact Or.inr ⟨_, rfl⟩
  · exact Or.inl rfl
  · exact Or.inr ⟨_, rfl⟩

theorem readFrames_succ (n : ℕ) (s : Bytes) : readFrames (n + 1) s
    = ((readFrame.exec s).1 :: (readFrames n (readFrame.exec s).2).1,
      (readFrames n (readFrame.exec s).2).2) := rfl

theorem readMessages_succ (n : ℕ) (a : Assembly) (s : Bytes) : readMessages (n + 1) a s
    = ((readMessage a s).1 :: (readMessages n (readMessage a s).2.1 (readMessage a s).2.2).1,
      (readMessages n (readMessage a s).2.1 (readMessage a s).2.2).2) := rfl

theorem readFrames_add (k l : ℕ) (s : Bytes) : readFrames (k + l) s
    = ((readFrames k s).1 ++ (readFrames l (readFrames k s).2).1,
      (readFrames l (readFrames k s).2).2) := by
  induction k generalizing s with
  | zero => rw [Nat.zero_add]; rfl
  | succ k ih => rw [Nat.succ_add, readFrames_succ, readFrames_succ, ih]; rfl

/-- What the calls return that do not throw. -/
def returned {α : Type} (outcomes : List (Except ClientError α)) : List α :=
  outcomes.filterMap Except.toOption

theorem returned_append {α : Type} (xs ys : List (Except ClientError α)) :
    returned (xs ++ ys) = returned xs ++ returned ys :=
  List.filterMap_append

theorem taken_of_mem_readFrames {n : ℕ} {s : Bytes} {f : WsInFrame}
    (h : f ∈ returned (readFrames n s).1) : Taken f := by
  induction n generalizing s with
  | zero => nomatch h
  | succ n ih =>
    rw [readFrames_succ] at h
    rcases hread : readFrame.exec s with ⟨e | g, t⟩
    · rw [hread] at h
      exact ih h
    · rw [hread] at h
      rcases List.mem_cons.mp h with rfl | h
      · exact taken_of_exec_readFrame hread
      · exact ih h

/-- One call of `read_message` does the rounds for the frames that it reads. -/
theorem readMessage_assemble (a : Assembly) (s : Bytes) : ∃ k,
    (readFrames k s).2 = (readMessage a s).2.2 ∧
    (assemble a (returned (readFrames k s).1)).1 = (readMessage a s).2.1 ∧
    returned (assemble a (returned (readFrames k s).1)).2 = returned [(readMessage a s).1] := by
  -- the induction is on the bytes that are left
  induction hn : s.length using Nat.strong_induction_on generalizing a s with
  | _ n ih =>
    rcases hread : readFrame.exec s with ⟨e | f, t⟩
    · refine ⟨1, ?_⟩
      rw [readMessage_of_error a hread, readFrames_succ, hread]
      exact ⟨rfl, rfl, rfl⟩
    · rcases ended_cases (handleFrame a f).1 with hround | ⟨out, hround⟩
      · have hlt := length_lt_of_exec_readFrame hread
        obtain ⟨k, hrest, hmembers, houts⟩ := ih t.length (by omega) (handleFrame a f).2 t rfl
        refine ⟨k + 1, ?_⟩
        have hreturned : returned (readFrames (k + 1) s).1 = f :: returned (readFrames k t).1 := by
          rw [readFrames_succ, hread]
          rfl
        rw [readMessage_of_goesOn hread hround, hreturned, assemble, hround, readFrames_succ, hread]
        exact ⟨hrest, hmembers, houts⟩
      · refine ⟨1, ?_⟩
        have hreturned : returned (readFrames 1 s).1 = [f] := by
          rw [readFrames_succ, hread]
          rfl
        rw [readMessage_of_ended hread hround, hreturned, assemble, hround, readFrames_succ, hread]
        exact ⟨rfl, rfl, rfl⟩

/-- **The calls of `read_message`** do the rounds for the frames that they read. -/
theorem readMessages_assemble (n : ℕ) (a : Assembly) (s : Bytes) : ∃ k,
    (readFrames k s).2 = (readMessages n a s).2.2 ∧
    (assemble a (returned (readFrames k s).1)).1 = (readMessages n a s).2.1 ∧
    returned (assemble a (returned (readFrames k s).1)).2 = returned (readMessages n a s).1 := by
  induction n generalizing a s with
  | zero => exact ⟨0, rfl, rfl, rfl⟩
  | succ n ih =>
    obtain ⟨k, hrest, hmembers, houts⟩ := readMessage_assemble a s
    obtain ⟨l, hrests, hmemberss, houtss⟩ := ih (readMessage a s).2.1 (readMessage a s).2.2
    refine ⟨k + l, ?_⟩
    rw [readFrames_add, returned_append, assemble_append, hmembers, returned_append, houts, hrest,
      readMessages_succ, ← List.singleton_append, returned_append, houtss]
    exact ⟨hrests, hmemberss, rfl⟩

/-- Frames that are all returned: so many calls as there are outcomes give these, and the next call
goes on behind the frames. -/
theorem readMessages_of_readFrames {fs : List WsInFrame} (a : Assembly) {s t : Bytes}
    (h : readFrames fs.length s = (fs.map .ok, t)) : ∃ a' s',
    readMessages (assemble a fs).2.length a s = ((assemble a fs).2, a', s') ∧
    readMessage a' s' = readMessage (assemble a fs).1 t := by
  induction fs generalizing a s with
  | nil =>
    obtain rfl : s = t := congrArg Prod.snd h
    exact ⟨a, s, rfl, rfl⟩
  | cons f fs ih =>
    rw [List.length_cons, readFrames_succ, List.map_cons, Prod.mk.injEq, List.cons.injEq] at h
    obtain ⟨⟨hok, htail⟩, hrest⟩ := h
    have hread : readFrame.exec s = (.ok f, (readFrame.exec s).2) := Prod.ext hok rfl
    obtain ⟨a', s', hcalls, hnext⟩ := ih (handleFrame a f).2 (Prod.ext htail hrest)
    rw [assemble]
    dsimp only
    rcases ended_cases (handleFrame a f).1 with hround | ⟨out, hround⟩
    · have hgoesOn := readMessage_of_goesOn hread hround
      rw [hround, List.nil_append]
      rcases houts : (assemble (handleFrame a f).2 fs).2 with _ | ⟨out, outs⟩
      · -- no call has been made, and the next one goes through `f` too
        rw [houts] at hcalls
        obtain ⟨-, rfl, rfl⟩ : _ ∧ _ ∧ _ := by
          rw [List.length_nil, readMessages, Prod.mk.injEq, Prod.mk.injEq] at hcalls
          exact hcalls
        exact ⟨a, s, rfl, hgoesOn.trans hnext⟩
      · rw [houts, List.length_cons, readMessages_succ] at hcalls
        refine ⟨a', s', ?_, hnext⟩
        rw [List.length_cons, readMessages_succ, hgoesOn]
        exact hcalls
    · refine ⟨a', s', ?_, hnext⟩
      rw [hround, List.singleton_append, List.length_cons, readMessages_succ,
        readMessage_of_ended hread hround, hcalls]

/-- **Reassembly is sound and complete**: from between two messages, what the calls of
`read_message` return is given by disjoint stretches of the frames that `read_frame` returns, in
order; and whole messages, with control frames anywhere, are returned one by one, after which the
next call finds nothing of them. -/
theorem readMessages_reassemble {a : Assembly} (ha : a.assembling = false) (s : Bytes) :
    (∀ n, ∃ k pieces outs rest, (readFrames k s).2 = (readMessages n a s).2.2 ∧
      returned (readFrames k s).1 = pieces.flatten ++ rest ∧ Unfinished rest ∧
      List.Forall₂ Gives pieces outs ∧
      returned (readMessages n a s).1 = returned outs.flatten) ∧
    ∀ (fs : List WsInFrame) t parts ms, readFrames fs.length s = (fs.map .ok, t) →
      (fs.filter fun f => ¬f.IsControl) = parts.flatten →
      List.Forall₂ (fun part m => Gives part [.ok m]) parts ms →
      ∃ a' s' a'', readMessages ms.length a s = (ms.map .ok, a', s') ∧
        a''.assembling = false ∧ readMessage a' s' = readMessage a'' t := by
  constructor
  · intro n
    obtain ⟨k, hrest, -, houts⟩ := readMessages_assemble n a s
    obtain ⟨pieces, outs, rest, hframes, hgives, hunfinished⟩ :=
      exists_pieces (returned (readFrames k s).1) fun f hf => taken_of_mem_readFrames hf
    obtain ⟨hpieces, hidle⟩ := assemble_pieces hgives ha
    refine ⟨k, pieces, outs, rest, hrest, hframes, hunfinished, hgives, ?_⟩
    rw [← houts, hframes, assemble_append, hpieces, assemble_unfinished hunfinished hidle,
      List.append_nil]
  · intro fs t parts ms hread hdata hparts
    have hgives : List.Forall₂ Gives parts (ms.map fun m => [.ok m]) :=
      List.forall₂_map_right_iff.mpr hparts
    obtain ⟨hpieces, hidle⟩ := assemble_pieces hgives ha
    have houts : (assemble a fs).2 = ms.map .ok := by
      rw [← assemble_filter, hdata, hpieces]
      exact List.map_eq_flatMap.symm
    obtain ⟨a', s', hcalls, hnext⟩ := readMessages_of_readFrames a hread
    rw [houts, List.length_map] at hcalls
    rw [← assemble_filter, hdata] at hnext
    exact ⟨a', s', _, hcalls, hidle, hnext⟩

/-- Two messages, with a PING before the first and a PONG inside it. -/
theorem readMessages_reassemble_pongInside : ∃ a' s',
    readMessages 2 {} [0x89, 0, 0x01, 2, 104, 101, 0x8A, 0, 0x80, 1, 121, 0x82, 1, 7]
      = ([.ok { opcode := 1, payload := bytes "hey" }, .ok { opcode := 2, payload := [7] }],
        a', s') := by
  have hfragments : Gives
      ({ opcode := 1, fin := false, payload := [104, 101] }
        :: ([] ++ [{ opcode := 0, payload := [121] }]))
      [.ok { opcode := 1, payload := bytes "hey" }] :=
    .fragmented (by decide) rfl (by decide) rfl rfl
  have h := (readMessages_reassemble (a := {}) rfl
    [0x89, 0, 0x01, 2, 104, 101, 0x8A, 0, 0x80, 1, 121, 0x82, 1, 7]).2
    [{ opcode := 9 }, { opcode := 1, fin := false, payload := [104, 101] }, { opcode := 0xA },
      { opcode := 0, payload := [121] }, { opcode := 2, payload := [7] }] []
    [[{ opcode := 1, fin := false, payload := [104, 101] }, { opcode := 0, payload := [121] }],
      [{ opcode := 2, payload := [7] }]]
    [{ opcode := 1, payload := bytes "hey" }, { opcode := 2, payload := [7] }] (by rfl) (by decide)
    (.cons hfragments (.cons (.single (by decide) rfl) .nil))
  obtain ⟨a', s', -, hcalls, -⟩ := h
  exact ⟨a', s', hcalls⟩

end WebSocketClient

end WebSocketsLib
