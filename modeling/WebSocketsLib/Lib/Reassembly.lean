import Mathlib.Data.List.Basic
import Mathlib.Data.List.Induction
import Mathlib.Tactic.Common

/-!
# Reassembling fragmented messages

A sender cuts each message into fragments: one that starts the message, then continuations, the
last one (and only it) marked final; control fragments may stand anywhere between them.  `step` is
the receiver: its state is the payload of the message being assembled, if there is one, and it
delivers a message at its final fragment.  A message whose payload does not satisfy `fits` is
discarded as soon as that shows, and a fragment that continues nothing is ignored.

* `delivered_endsMessage` (soundness): whatever is delivered, after any fragments at all, is the
  payload of one starting fragment and of the continuations up to the first final one.
* `run_transcript` (completeness): a sequence made of complete messages that fit, with control
  fragments anywhere, delivers exactly these messages in order and ends with nothing open;
  `run_inside_message` describes the state inside a message.
-/

namespace Reassembly

/-- A fragment as the receiver classifies it. -/
inductive Fragment (α : Type*)
  /-- Starts a message. -/
  | start (fin : Bool) (payload : List α)
  /-- Continues the open message. -/
  | cont (fin : Bool) (payload : List α)
  /-- Takes no part in reassembly. -/
  | control

variable {α : Type*}

namespace Fragment

def payload : Fragment α → List α
  | start _ p => p
  | cont _ p => p
  | control => []

/-- Whether the fragment ends a message. -/
def isFinal : Fragment α → Bool
  | start fin _ => fin
  | cont fin _ => fin
  | control => false

def isControl : Fragment α → Bool
  | control => true
  | _ => false

/-- A continuation marked final. -/
def isFinalCont : Fragment α → Bool
  | cont fin _ => fin
  | _ => false

end Fragment

open Fragment

/-- Taking in the payload `acc` of the open message, final or not. -/
def accept (fits : List α → Bool) (fin : Bool) (acc : List α) :
    Option (List α) × Option (List α) :=
  if fits acc then (if fin then (none, some acc) else (some acc, none)) else (none, none)

/-- One fragment: the new open message and the message delivered, if any.  A fragment that would
start a message while one is open is ignored. -/
def step (fits : List α → Bool) :
    Option (List α) → Fragment α → Option (List α) × Option (List α)
  | none, start fin p => accept fits fin p
  | some acc, cont fin p => accept fits fin (acc ++ p)
  | s, _ => (s, none)

/-- A sequence of fragments: the open message at the end and the messages delivered, in order. -/
def run (fits : List α → Bool) :
    Option (List α) → List (Fragment α) → Option (List α) × List (List α)
  | s, [] => (s, [])
  | s, f :: fs =>
    let (s', delivered) := step fits s f
    let (s'', rest) := run fits s' fs
    (s'', delivered.toList ++ rest)

theorem run_cons (fits : List α → Bool) (s : Option (List α)) (f : Fragment α)
    (fs : List (Fragment α)) : run fits s (f :: fs) = ((run fits (step fits s f).1 fs).1,
      (step fits s f).2.toList ++ (run fits (step fits s f).1 fs).2) := rfl

theorem run_append (fits : List α → Bool) (s : Option (List α)) (fs gs : List (Fragment α)) :
    run fits s (fs ++ gs) = ((run fits (run fits s fs).1 gs).1,
      (run fits s fs).2 ++ (run fits (run fits s fs).1 gs).2) := by
  induction fs generalizing s with
  | nil => rfl
  | cons f fs ih => simp only [List.cons_append, run_cons, ih, List.append_assoc]

theorem run_concat (fits : List α → Bool) (s : Option (List α)) (fs : List (Fragment α))
    (f : Fragment α) : run fits s (fs ++ [f]) = ((step fits (run fits s fs).1 f).1,
      (run fits s fs).2 ++ (step fits (run fits s fs).1 f).2.toList) := by
  rw [run_append]
  simp [run]

/-! ### Soundness -/

/-- The payloads of the continuations in a sequence, joined. -/
def contPayload : List (Fragment α) → List α
  | [] => []
  | cont _ p :: fs => p ++ contPayload fs
  | _ :: fs => contPayload fs

theorem contPayload_append (fs gs : List (Fragment α)) :
    contPayload (fs ++ gs) = contPayload fs ++ contPayload gs := by
  induction fs with
  | nil => rfl
  | cons f fs ih => cases f <;> simp [contPayload, ih]

/-- `seen` leaves a message open, and `acc` is what of it has arrived. -/
def OpenMessage (seen : List (Fragment α)) (acc : List α) : Prop :=
  ∃ pre p mid, seen = pre ++ start false p :: mid ∧ (∀ x ∈ mid, x.isFinalCont = false) ∧
    acc = p ++ contPayload mid

/-- The last fragment of `seen` ends a message, and `m` is that message: the payload of one
starting fragment and of all continuations after it, up to and including the first final one. -/
inductive EndsMessage : List (Fragment α) → List α → Prop
  | single (pre : List (Fragment α)) (p : List α) : EndsMessage (pre ++ [start true p]) p
  | fragmented (pre mid : List (Fragment α)) (p q : List α)
      (hmid : ∀ x ∈ mid, x.isFinalCont = false) :
      EndsMessage (pre ++ start false p :: (mid ++ [cont true q])) (p ++ contPayload mid ++ q)

/-- A non-final continuation or an ignored fragment keeps a message open. -/
theorem OpenMessage.concat {seen : List (Fragment α)} {acc : List α} (h : OpenMessage seen acc)
    {f : Fragment α} (hf : f.isFinalCont = false) :
    OpenMessage (seen ++ [f]) (acc ++ contPayload [f]) := by
  obtain ⟨pre, p, mid, rfl, hmid, rfl⟩ := h
  refine ⟨pre, p, mid ++ [f], by simp, ?_, ?_⟩
  · intro x hx
    rcases List.mem_append.mp hx with hx | hx
    · exact hmid x hx
    · rwa [List.mem_singleton.mp hx]
  · rw [contPayload_append, List.append_assoc]

/-- The open message after any fragments is one that they leave open. -/
theorem run_openMessage (fits : List α → Bool) (seen : List (Fragment α)) {acc : List α}
    (h : (run fits none seen).1 = some acc) : OpenMessage seen acc := by
  induction seen using List.reverseRecOn generalizing acc with
  | nil => simp [run] at h
  | append_singleton seen f ih =>
    rw [run_concat] at h
    replace h : (step fits (run fits none seen).1 f).1 = some acc := h
    cases hs : (run fits none seen).1 with
    | none =>
      rw [hs] at h
      cases f with
      | start fin p =>
        simp only [step, accept] at h
        split_ifs at h with hfits hfin
        obtain rfl : p = acc := by simpa using h
        rw [Bool.not_eq_true] at hfin
        subst hfin
        exact ⟨seen, p, [], rfl, by simp, by simp [contPayload]⟩
      | cont fin p => simp [step] at h
      | control => simp [step] at h
    | some acc' =>
      have hopen := ih hs
      rw [hs] at h
      cases f with
      | start fin p =>
        obtain rfl : acc' = acc := by simpa [step] using h
        simpa [contPayload] using hopen.concat (f := start fin p) rfl
      | cont fin p =>
        simp only [step, accept] at h
        split_ifs at h with hfits hfin
        obtain rfl : acc' ++ p = acc := by simpa using h
        rw [Bool.not_eq_true] at hfin
        subst hfin
        simpa [contPayload] using hopen.concat (f := cont false p) rfl
      | control =>
        obtain rfl : acc' = acc := by simpa [step] using h
        simpa [contPayload] using hopen.concat (f := control) rfl

/-- **Soundness**: a message is delivered only at the fragment that ends it, and in full. -/
theorem delivered_endsMessage (fits : List α → Bool) (seen : List (Fragment α)) (f : Fragment α)
    {m : List α} (h : (step fits (run fits none seen).1 f).2 = some m) :
    EndsMessage (seen ++ [f]) m := by
  cases hs : (run fits none seen).1 with
  | none =>
    rw [hs] at h
    cases f with
    | start fin p =>
      simp only [step, accept] at h
      split_ifs at h with hfits hfin
      obtain rfl : p = m := by simpa using h
      subst hfin
      exact .single seen p
    | cont fin p => simp [step] at h
    | control => simp [step] at h
  | some acc =>
    obtain ⟨pre, p, mid, rfl, hmid, rfl⟩ := run_openMessage fits seen hs
    rw [hs] at h
    cases f with
    | start fin p => simp [step] at h
    | cont fin q =>
      simp only [step, accept] at h
      split_ifs at h with hfits hfin
      obtain rfl : p ++ contPayload mid ++ q = m := by simpa using h
      subst hfin
      simpa using EndsMessage.fragmented pre mid p q hmid
    | control => simp [step] at h

/-! ### Completeness -/

/-- The payload of a message cut into fragments. -/
def joined (ms : List (Fragment α)) : List α :=
  (ms.map payload).flatten

/-- The continuations of a message, the last one final. -/
inductive IsTail : List (Fragment α) → Prop
  | last (p : List α) : IsTail [cont true p]
  | more (p : List α) {fs : List (Fragment α)} (h : IsTail fs) : IsTail (cont false p :: fs)

/-- The fragments of one complete message. -/
inductive IsMessage : List (Fragment α) → Prop
  | single (p : List α) : IsMessage [start true p]
  | fragmented (p : List α) {fs : List (Fragment α)} (h : IsTail fs) :
      IsMessage (start false p :: fs)

/-- What is open after the fragments `before` of a message that has not ended. -/
def openOf (before : List (Fragment α)) : Option (List α) :=
  if before = [] then none else some (joined before)

theorem openOf_concat (before : List (Fragment α)) (f : Fragment α) :
    openOf (before ++ [f]) = some (joined (before ++ [f])) :=
  if_neg (by simp)

/-- Control fragments change nothing. -/
theorem run_filter_control (fits : List α → Bool) (s : Option (List α)) (fs : List (Fragment α)) :
    run fits s (fs.filter fun f => !f.isControl) = run fits s fs := by
  induction fs generalizing s with
  | nil => rfl
  | cons f fs ih =>
    cases f with
    | start fin p => rw [List.filter_cons_of_pos rfl, run_cons, run_cons, ih]
    | cont fin p => rw [List.filter_cons_of_pos rfl, run_cons, run_cons, ih]
    | control =>
      have hstep : step fits s control = (s, none) := by cases s <;> rfl
      rw [List.filter_cons_of_neg (by simp [isControl]), ih, run_cons, hstep]
      rfl

/-- What follows the first fragments of a tail is a tail. -/
theorem IsTail.of_append (before : List (Fragment α)) {after : List (Fragment α)} {f : Fragment α}
    (h : IsTail (before ++ f :: after)) : IsTail (f :: after) := by
  induction before with
  | nil => exact h
  | cons b before ih =>
    cases hl : before ++ f :: after with
    | nil => simp at hl
    | cons x l =>
      rw [List.cons_append, hl] at h
      cases h with
      | more p h => exact ih (by rwa [hl])

/-- What follows the first fragments of a message is a tail. -/
theorem IsMessage.isTail {b : Fragment α} {before after : List (Fragment α)} {f : Fragment α}
    (h : IsMessage (b :: before ++ f :: after)) : IsTail (f :: after) := by
  cases hl : before ++ f :: after with
  | nil => simp at hl
  | cons x l =>
    rw [List.cons_append, hl] at h
    cases h with
    | fragmented p h => exact IsTail.of_append before (by rwa [hl])

/-- The fragments of a message before its end are not final, and the one at its end is. -/
theorem IsMessage.isFinal_iff {before after : List (Fragment α)} {f : Fragment α}
    (h : IsMessage (before ++ f :: after)) : f.isFinal = true ↔ after = [] := by
  cases before with
  | nil =>
    cases h with
    | single p => simp [isFinal]
    | fragmented p h => cases h <;> simp [isFinal]
  | cons b before =>
    cases h.isTail with
    | last p => simp [isFinal]
    | more p h => cases h <;> simp [isFinal]

/-- **One fragment of a message**: the receiver takes in the message up to it. -/
theorem step_openOf (fits : List α → Bool) {before after : List (Fragment α)} {f : Fragment α}
    (h : IsMessage (before ++ f :: after)) :
    step fits (openOf before) f = accept fits f.isFinal (joined (before ++ [f])) := by
  cases before with
  | nil => cases h <;> simp [openOf, step, isFinal, joined, payload]
  -- every later fragment is a continuation
  | cons b before => cases h.isTail <;> simp [openOf, step, isFinal, joined, payload]

/-- Inside a message whose beginning fits, the receiver holds that beginning and has delivered
nothing of it. -/
theorem run_before (fits : List α → Bool) (hfits : ∀ x y, fits (x ++ y) = true → fits x = true)
    {before after : List (Fragment α)} {f : Fragment α} (h : IsMessage (before ++ f :: after))
    (hb : fits (joined before) = true) : run fits none before = (openOf before, []) := by
  induction before using List.reverseRecOn generalizing f after with
  | nil => rfl
  | append_singleton before b ih =>
    rw [List.append_assoc, List.singleton_append] at h
    have hj : joined (before ++ [b]) = joined before ++ b.payload := by simp [joined]
    rw [run_concat, ih h (hfits _ _ (hj ▸ hb)), step_openOf fits h, accept, if_pos hb,
      if_neg (by rw [h.isFinal_iff]; simp), openOf_concat]
    rfl

/-- A complete message that fits is delivered at its end. -/
theorem run_message (fits : List α → Bool) (hfits : ∀ x y, fits (x ++ y) = true → fits x = true)
    {ms : List (Fragment α)} (h : IsMessage ms) (hm : fits (joined ms) = true) :
    run fits none ms = (none, [joined ms]) := by
  rcases List.eq_nil_or_concat' ms with rfl | ⟨before, f, rfl⟩
  · cases h
  · have hj : joined (before ++ [f]) = joined before ++ f.payload := by simp [joined]
    rw [run_concat, run_before fits hfits h (hfits _ _ (hj ▸ hm)), step_openOf fits h, accept,
      if_pos hm, if_pos (h.isFinal_iff.mpr rfl)]
    rfl

theorem run_messages (fits : List α → Bool) (hfits : ∀ x y, fits (x ++ y) = true → fits x = true)
    {msgs : List (List (Fragment α))} (h : ∀ ms ∈ msgs, IsMessage ms)
    (hm : ∀ ms ∈ msgs, fits (joined ms) = true) :
    run fits none msgs.flatten = (none, msgs.map joined) := by
  induction msgs with
  | nil => rfl
  | cons ms msgs ih =>
    have ih := ih (fun x hx => h x (List.mem_cons_of_mem _ hx))
      fun x hx => hm x (List.mem_cons_of_mem _ hx)
    rw [List.flatten_cons, run_append,
      run_message fits hfits (h ms (List.mem_cons_self ..)) (hm ms (List.mem_cons_self ..)), ih]
    rfl

/-- **Inside a sequence**: after complete messages that fit and the beginning `before` of another
one, with control fragments anywhere, the complete messages have been delivered and `before` is
open. -/
theorem run_inside_message (fits : List α → Bool)
    (hfits : ∀ x y, fits (x ++ y) = true → fits x = true)
    {seen : List (Fragment α)} {good : List (List (Fragment α))}
    {before after : List (Fragment α)} {f : Fragment α}
    (hseen : (seen.filter fun x => !x.isControl) = good.flatten ++ before)
    (hgood : ∀ ms ∈ good, IsMessage ms) (hg : ∀ ms ∈ good, fits (joined ms) = true)
    (h : IsMessage (before ++ f :: after)) (hb : fits (joined before) = true) :
    run fits none seen = (openOf before, good.map joined) := by
  rw [← run_filter_control, hseen, run_append, run_messages fits hfits hgood hg,
    run_before fits hfits h hb, List.append_nil]

/-- **Completeness**: complete messages that fit, with control fragments anywhere, are delivered
once each and in order. -/
theorem run_transcript (fits : List α → Bool)
    (hfits : ∀ x y, fits (x ++ y) = true → fits x = true)
    {seen : List (Fragment α)} {msgs : List (List (Fragment α))}
    (hseen : (seen.filter fun x => !x.isControl) = msgs.flatten)
    (hmsgs : ∀ ms ∈ msgs, IsMessage ms) (hm : ∀ ms ∈ msgs, fits (joined ms) = true) :
    run fits none seen = (none, msgs.map joined) := by
  rw [← run_filter_control, hseen, run_messages fits hfits hmsgs hm]

end Reassembly
