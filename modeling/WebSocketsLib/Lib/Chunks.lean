import Mathlib.Data.List.Basic
import Mathlib.Tactic.Common

/-!
# Byte streams delivered in chunks

A socket delivers a stream as a list of chunks.  `readUntil` appends whole chunks to a buffer until
the buffer contains a delimiter, so it may take more than it was asked for; `readExactly` takes a
given number of elements and leaves the rest of a chunk it has split.

Where a reader stops depends on the cuts between the chunks only (`CutIn`).

* `readUntil_spec`: the buffer ends at the first cut at or after the end of the delimiter.
* `readExactly_spec`: exactly the elements asked for are taken, and the cuts beyond them stay.
-/

namespace Chunks

variable {α : Type*} [DecidableEq α]

/-! ### The end of a delimiter -/

/-- Where the first occurrence of `delim` ends. -/
def findEnd (delim : List α) : List α → Option ℕ
  | [] => if delim = [] then some 0 else none
  | a :: s => if delim.isPrefixOf (a :: s) then some delim.length else (findEnd delim s).map (· + 1)

theorem findEnd_bounds {delim s : List α} {n : ℕ} (h : findEnd delim s = some n) :
    delim.length ≤ n ∧ n ≤ s.length := by
  induction s generalizing n with
  | nil =>
    rw [findEnd] at h
    split_ifs at h with hd
    obtain rfl := Option.some.inj h
    simp [hd]
  | cons a s ih =>
    rw [findEnd] at h
    split_ifs at h with hd
    · obtain rfl := Option.some.inj h
      exact ⟨Nat.le_refl _, (List.isPrefixOf_iff_prefix.mp hd).length_le⟩
    · obtain ⟨m, hm, rfl⟩ := Option.map_eq_some_iff.mp h
      obtain ⟨h1, h2⟩ := ih hm
      exact ⟨by omega, by rw [List.length_cons]; omega⟩

/-- What follows an occurrence does not matter. -/
theorem findEnd_append {delim s : List α} {n : ℕ} (h : findEnd delim s = some n) (t : List α) :
    findEnd delim (s ++ t) = some n := by
  induction s generalizing n with
  | nil =>
    rw [findEnd] at h
    split_ifs at h with hd
    obtain rfl := Option.some.inj h
    subst hd
    cases t <;> rfl
  | cons a s ih =>
    rw [findEnd] at h
    rw [List.cons_append, findEnd]
    split_ifs at h with hd
    · -- the delimiter is found at the same place
      have hd' : delim.isPrefixOf (a :: (s ++ t)) = true := by
        rw [List.isPrefixOf_iff_prefix] at hd ⊢
        exact hd.trans (List.prefix_append (a :: s) t)
      rw [if_pos hd', h]
    · -- it does not begin here, since it would lie within `a :: s`
      obtain ⟨m, hm, rfl⟩ := Option.map_eq_some_iff.mp h
      obtain ⟨h1, h2⟩ := findEnd_bounds hm
      have hd' : ¬ delim.isPrefixOf (a :: (s ++ t)) = true := by
        rw [List.isPrefixOf_iff_prefix] at hd ⊢
        exact fun hp => hd (List.prefix_of_prefix_length_le hp (List.prefix_append (a :: s) t)
          (by rw [List.length_cons]; omega))
      rw [if_neg hd', ih hm]
      rfl

/-- A delimiter is found exactly when it occurs. -/
theorem findEnd_ne_none_iff {delim s : List α} : findEnd delim s ≠ none ↔ delim <:+: s := by
  induction s with
  | nil =>
    rw [findEnd, List.infix_nil]
    split_ifs with hd
    · exact ⟨fun _ => hd, fun _ h => nomatch h⟩
    · exact ⟨fun h => absurd rfl h, fun h => absurd h hd⟩
  | cons a s ih =>
    rw [findEnd, List.infix_cons_iff, ← List.isPrefixOf_iff_prefix]
    split_ifs with hp
    · exact ⟨fun _ => Or.inl hp, fun _ h => nomatch h⟩
    · rw [ne_eq, Option.map_eq_none_iff]
      exact ⟨fun h => Or.inr (ih.mp h), fun h => ih.mpr (h.resolve_left hp)⟩

/-- A delimiter that occurs is found. -/
theorem findEnd_ne_none {delim s t : List α} : findEnd delim (s ++ delim ++ t) ≠ none :=
  findEnd_ne_none_iff.mpr ⟨s, t, rfl⟩

omit [DecidableEq α] in
/-- A word does not extend over an element that it does not contain. -/
theorem infix_append_cons_iff {w s t : List α} {a : α} (ha : a ∉ w) :
    w <:+: s ++ a :: t ↔ w <:+: s ∨ w <:+: t := by
  constructor
  · intro h
    rcases List.infix_append_iff.mp h with h | h | ⟨w₁, w₂, rfl, hsuffix, hrest⟩
    · exact Or.inl h
    · rcases List.infix_cons_iff.mp h with h | h
      · cases w with
        | nil => exact Or.inr (List.nil_infix)
        | cons b w =>
          exact absurd (List.cons_prefix_cons.mp h).1
            (fun heq => ha (heq ▸ List.mem_cons_self ..))
      · exact Or.inr h
    · -- the part on the right is empty
      cases w₂ with
      | nil => exact Or.inl (by rw [List.append_nil]; exact hsuffix.isInfix)
      | cons b w₂ =>
        obtain ⟨rfl, -⟩ := List.cons_prefix_cons.mp hrest
        exact absurd (List.mem_append_right w₁ (List.mem_cons_self ..)) ha
  · rintro (h | h)
    · exact h.trans (List.prefix_append s _).isInfix
    · exact h.trans ((List.suffix_cons a t).trans (List.suffix_append s _)).isInfix

omit [DecidableEq α] in
/-- A word ends before what has no element in common with it. -/
theorem infix_of_infix_append {w s t : List α} (hw : w ≠ []) (ht : ∀ a ∈ t, a ∉ w)
    (h : w <:+: s ++ t) : w <:+: s := by
  cases t with
  | nil => rwa [List.append_nil] at h
  | cons a t =>
    rcases (infix_append_cons_iff (ht a List.mem_cons_self)).mp h with hs | hrest
    · exact hs
    · obtain ⟨b, hb⟩ := List.exists_mem_of_ne_nil w hw
      exact absurd hb (ht b (List.mem_cons_of_mem a (hrest.subset hb)))

/-- A delimiter whose last element does not occur before it. -/
theorem findEnd_of_not_mem {d s : List α} {z : α} (hd : z ∉ d) (hs : z ∉ s) :
    findEnd (d ++ [z]) (s ++ (d ++ [z])) = some (s ++ (d ++ [z])).length := by
  induction s with
  | nil =>
    cases h : d ++ [z] with
    | nil => simp at h
    | cons a t =>
      rw [List.nil_append, findEnd, if_pos (List.isPrefixOf_iff_prefix.mpr (List.prefix_refl _))]
  | cons a s ih =>
    have hno : ¬ (d ++ [z]).isPrefixOf (a :: (s ++ (d ++ [z]))) = true := by
      rw [List.isPrefixOf_iff_prefix]
      intro hp
      -- an earlier occurrence would end before the last element, and `z` would be there
      have hp' : d ++ [z] <+: (a :: s) ++ d := by
        refine List.prefix_of_prefix_length_le hp ?_ ?_
        · rw [← List.cons_append, ← List.append_assoc]
          exact List.prefix_append _ _
        · simp only [List.length_append, List.length_cons, List.length_nil]
          omega
      have hmem : z ∈ (a :: s) ++ d := hp'.subset (by simp)
      rcases List.mem_append.mp hmem with hmem | hmem
      · exact hs hmem
      · exact hd hmem
    rw [List.cons_append, findEnd, if_neg hno, ih (fun h => hs (List.mem_cons_of_mem a h))]
    rfl

/-! ### Cuts -/

/-- Some chunk ends (or the stream begins) at a position from `lo` to `hi`. -/
def CutIn (cs : List (List α)) (lo hi : ℕ) : Prop :=
  ∃ taken rest, cs = taken ++ rest ∧ lo ≤ taken.flatten.length ∧ taken.flatten.length ≤ hi

omit [DecidableEq α] in
theorem cutIn_cons_iff {c : List α} {cs : List (List α)} {lo hi : ℕ} (hlo : 0 < lo) :
    CutIn (c :: cs) lo hi ↔ ∃ taken rest, cs = taken ++ rest ∧
      lo ≤ c.length + taken.flatten.length ∧ c.length + taken.flatten.length ≤ hi := by
  constructor
  · rintro ⟨taken, rest, hcs, h1, h2⟩
    cases taken with
    | nil =>
      -- the beginning of the stream is not such a position
      simp at h1
      omega
    | cons c' taken =>
      obtain ⟨rfl, rfl⟩ := List.cons.inj hcs
      rw [List.flatten_cons, List.length_append] at h1 h2
      exact ⟨taken, rest, rfl, h1, h2⟩
  · rintro ⟨taken, rest, rfl, h1, h2⟩
    refine ⟨c :: taken, rest, rfl, ?_, ?_⟩
    · rwa [List.flatten_cons, List.length_append]
    · rwa [List.flatten_cons, List.length_append]

omit [DecidableEq α] in
/-- The cuts beyond chunks that have been taken. -/
theorem cutIn_append {taken rest : List (List α)} {lo hi : ℕ} (hlo : 0 < lo) :
    CutIn (taken ++ rest) (taken.flatten.length + lo) (taken.flatten.length + hi)
      ↔ CutIn rest lo hi := by
  induction taken generalizing lo hi with
  | nil => simp
  | cons c taken ih =>
    rw [List.cons_append, cutIn_cons_iff (by omega), List.flatten_cons, List.length_append]
    rw [← ih hlo, CutIn]
    constructor
    · rintro ⟨t, r, hcs, h1, h2⟩
      exact ⟨t, r, hcs, by omega, by omega⟩
    · rintro ⟨t, r, hcs, h1, h2⟩
      exact ⟨t, r, hcs, by omega, by omega⟩

/-! ### Reading until a delimiter -/

/-- Appends whole chunks to `buf` until it contains `delim`: where the first occurrence ends, the
buffer and the chunks left; `none` when the stream ends before. -/
def readUntil (delim : List α) :
    List α → List (List α) → Option (ℕ × List α × List (List α))
  | buf, [] => (findEnd delim buf).map fun n => (n, buf, [])
  | buf, c :: cs =>
    match findEnd delim buf with
    | some n => some (n, buf, c :: cs)
    | none => readUntil delim (buf ++ c) cs

theorem readUntil_of_found {delim buf : List α} {n : ℕ} (h : findEnd delim buf = some n)
    (cs : List (List α)) : readUntil delim buf cs = some (n, buf, cs) := by
  cases cs with
  | nil => rw [readUntil, h]; rfl
  | cons c cs => rw [readUntil, h]

/-- **A stream that contains the delimiter**: nothing is lost between the buffer and the chunks
left, and the buffer contains the delimiter. -/
theorem readUntil_of_infix {delim buf : List α} {cs : List (List α)}
    (h : delim <:+: buf ++ cs.flatten) : ∃ n buf' rest,
      readUntil delim buf cs = some (n, buf', rest) ∧ buf' ++ rest.flatten = buf ++ cs.flatten ∧
        delim <:+: buf' := by
  induction cs generalizing buf with
  | nil =>
    rw [List.flatten_nil, List.append_nil] at h
    obtain ⟨n, hn⟩ := Option.ne_none_iff_exists'.mp (findEnd_ne_none_iff.mpr h)
    exact ⟨n, buf, [], readUntil_of_found hn [], rfl, h⟩
  | cons c cs ih =>
    cases hfound : findEnd delim buf with
    | some n =>
      refine ⟨n, buf, c :: cs, readUntil_of_found hfound _, rfl, findEnd_ne_none_iff.mp ?_⟩
      rw [hfound]
      exact Option.some_ne_none n
    | none =>
      rw [List.flatten_cons, ← List.append_assoc] at h ⊢
      obtain ⟨n, buf', rest, hread, hsplit, hdelim⟩ := ih h
      refine ⟨n, buf', rest, ?_, hsplit, hdelim⟩
      rw [readUntil, hfound]
      exact hread

/-- **Reading until a delimiter takes no more chunks than it needs**: what arrives behind them is
left. -/
theorem readUntil_append {delim buf buf' : List α} {cs rest : List (List α)} {n : ℕ}
    (h : readUntil delim buf cs = some (n, buf', rest)) (more : List (List α)) :
    readUntil delim buf (cs ++ more) = some (n, buf', rest ++ more) := by
  induction cs generalizing buf with
  | nil =>
    obtain ⟨m, hfound, heq⟩ := Option.map_eq_some_iff.mp h
    obtain ⟨rfl, hpair⟩ := Prod.mk.inj heq
    obtain ⟨rfl, rfl⟩ := Prod.mk.inj hpair
    exact readUntil_of_found hfound more
  | cons c cs ih =>
    rw [readUntil] at h
    cases hfound : findEnd delim buf with
    | some m =>
      rw [hfound] at h
      obtain ⟨rfl, hpair⟩ := Prod.mk.inj (Option.some.inj h)
      obtain ⟨rfl, rfl⟩ := Prod.mk.inj hpair
      exact readUntil_of_found hfound _
    | none =>
      rw [hfound] at h
      rw [List.cons_append, readUntil, hfound]
      exact ih h

/-- What is found has been read. -/
theorem infix_of_readUntil {delim buf buf' : List α} {cs rest : List (List α)} {n : ℕ}
    (h : readUntil delim buf cs = some (n, buf', rest)) : delim <:+: buf ++ cs.flatten := by
  induction cs generalizing buf with
  | nil =>
    obtain ⟨m, hfound, -⟩ := Option.map_eq_some_iff.mp h
    rw [List.flatten_nil, List.append_nil]
    apply findEnd_ne_none_iff.mp
    rw [hfound]
    exact Option.some_ne_none m
  | cons c cs ih =>
    rw [readUntil] at h
    cases hfound : findEnd delim buf with
    | some m =>
      apply List.IsInfix.trans _ (List.prefix_append buf _).isInfix
      apply findEnd_ne_none_iff.mp
      rw [hfound]
      exact Option.some_ne_none m
    | none =>
      rw [hfound] at h
      rw [List.flatten_cons, ← List.append_assoc]
      exact ih h

/-- A buffer that ends inside `head` does not contain the delimiter. -/
theorem findEnd_eq_none {delim head y buf z : List α} (hd : findEnd delim head = some head.length)
    (h : buf ++ z = head ++ y) (hlen : ¬ head.length ≤ buf.length) : findEnd delim buf = none := by
  cases hf : findEnd delim buf with
  | none => rfl
  | some n =>
    have heq := findEnd_append hf z
    rw [h, findEnd_append hd y] at heq
    have hle := (findEnd_bounds hf).2
    rw [Option.some.inj heq] at hlen
    omega

/-- Appended to `buf`, the chunks `taken` are the first ones that make it long enough. -/
structure FirstCut (buf : List α) (cs : List (List α)) (n : ℕ) (taken rest : List (List α)) :
    Prop where
  split : cs = taken ++ rest
  le : n ≤ (buf ++ taken.flatten).length
  first : ∀ taken' rest', cs = taken' ++ rest' → n ≤ (buf ++ taken'.flatten).length →
    (buf ++ taken.flatten).length ≤ (buf ++ taken'.flatten).length

/-- `readUntil` has ended with the first buffer that is long enough. -/
structure EndsAt (delim buf : List α) (cs : List (List α)) (n : ℕ)
    (taken rest : List (List α)) : Prop extends FirstCut buf cs n taken rest where
  read : readUntil delim buf cs = some (n, buf ++ taken.flatten, rest)

/-- The delimiter is in the buffer already. -/
theorem endsAt_of_le {delim head y buf z : List α} (hd : findEnd delim head = some head.length)
    (h : buf ++ z = head ++ y) (hlen : head.length ≤ buf.length) (cs : List (List α)) :
    EndsAt delim buf cs head.length [] cs := by
  obtain ⟨t, rfl⟩ : head <+: buf := List.prefix_of_prefix_length_le
    (List.prefix_append head y) (h ▸ List.prefix_append buf z) hlen
  refine ⟨⟨rfl, ?_, fun taken' rest' _ _ => ?_⟩, ?_⟩
  · rwa [List.flatten_nil, List.append_nil]
  · rw [List.flatten_nil, List.append_nil]
    exact (List.prefix_append _ taken'.flatten).length_le
  · rw [readUntil_of_found (findEnd_append hd t), List.flatten_nil, List.append_nil]

/-- One chunk more. -/
theorem EndsAt.cons {delim buf c : List α} {cs taken rest : List (List α)} {n : ℕ}
    (hnone : findEnd delim buf = none) (hlen : ¬ n ≤ buf.length)
    (h : EndsAt delim (buf ++ c) cs n taken rest) :
    EndsAt delim buf (c :: cs) n (c :: taken) rest := by
  obtain ⟨⟨rfl, hle, hfirst⟩, hread⟩ := h
  refine ⟨⟨rfl, ?_, fun taken' rest' hcs hle' => ?_⟩, ?_⟩
  · rwa [List.flatten_cons, ← List.append_assoc]
  · cases taken' with
    | nil =>
      rw [List.flatten_nil, List.append_nil] at hle'
      exact absurd hle' hlen
    | cons c' taken' =>
      obtain ⟨rfl, htail⟩ : c = c' ∧ taken ++ rest = taken' ++ rest' := List.cons.inj hcs
      rw [List.flatten_cons, ← List.append_assoc] at hle' ⊢
      rw [List.flatten_cons, ← List.append_assoc]
      exact hfirst taken' rest' htail hle'
  · rw [readUntil, hnone, List.flatten_cons, ← List.append_assoc]
    exact hread

/-- **Reading until a delimiter**: when the stream starts with `head`, which ends with the first
occurrence of the delimiter, the buffer ends at the first cut at or after the end of `head`. -/
theorem readUntil_spec {delim head y buf : List α} {cs : List (List α)}
    (hd : findEnd delim head = some head.length) (h : buf ++ cs.flatten = head ++ y) :
    ∃ taken rest, EndsAt delim buf cs head.length taken rest := by
  induction cs generalizing buf with
  | nil =>
    refine ⟨[], [], endsAt_of_le hd h ?_ []⟩
    rw [List.flatten_nil, List.append_nil] at h
    rw [h, List.length_append]
    exact Nat.le_add_right _ _
  | cons c cs ih =>
    by_cases hlen : head.length ≤ buf.length
    · exact ⟨[], c :: cs, endsAt_of_le hd h hlen (c :: cs)⟩
    · have hbuf : (buf ++ c) ++ cs.flatten = head ++ y := by
        rw [List.append_assoc, ← List.flatten_cons, h]
      obtain ⟨taken, rest, hends⟩ := ih hbuf
      exact ⟨c :: taken, rest, hends.cons (findEnd_eq_none hd h hlen) hlen⟩

omit [DecidableEq α] in
/-- Reading on, from a buffer from which `head` has been taken. -/
theorem FirstCut.append {buf buf' head : List α} {cs t₁ r₁ t₂ r₂ : List (List α)} {n : ℕ}
    (h₁ : FirstCut buf cs head.length t₁ r₁) (hbuf : buf ++ t₁.flatten = head ++ buf')
    (h₂ : FirstCut buf' r₁ n t₂ r₂) : FirstCut buf cs (head.length + n) (t₁ ++ t₂) r₂ := by
  obtain ⟨rfl, hle₁, hfirst₁⟩ := h₁
  obtain ⟨rfl, hle₂, hfirst₂⟩ := h₂
  have hlen := congrArg List.length hbuf
  simp only [List.length_append] at hlen hle₁ hfirst₁ hle₂ hfirst₂
  refine ⟨by rw [List.append_assoc], ?_, fun taken' rest' hcs hle' => ?_⟩
  · rw [List.flatten_append, List.length_append, List.length_append]
    omega
  · rw [List.flatten_append, List.length_append, List.length_append, List.length_append]
    rw [List.length_append] at hle'
    have hmin := hfirst₁ taken' rest' hcs (by omega)
    rcases List.append_eq_append_iff.mp hcs with ⟨more, rfl, hmore⟩ | ⟨less, rfl, hless⟩
    · -- `taken'` goes on where `t₁` ends
      rw [List.flatten_append, List.length_append] at hle' ⊢
      have := hfirst₂ more rest' hmore (by omega)
      omega
    · -- `taken'` ends before `t₁`, with empty chunks only between them
      rw [List.flatten_append, List.length_append] at hlen hmin ⊢
      have := hfirst₂ [] (t₂ ++ r₂) rfl (by rw [List.flatten_nil, List.length_nil]; omega)
      rw [List.flatten_nil, List.length_nil] at this
      omega

omit [DecidableEq α] in
/-- What follows `head` is left exactly when the stream is cut at its end. -/
theorem FirstCut.rest_eq_iff {head y : List α} {cs taken rest : List (List α)}
    (h : FirstCut [] cs head.length taken rest) (hcs : cs.flatten = head ++ y) :
    rest.flatten = y ↔ CutIn cs head.length head.length := by
  obtain ⟨rfl, hle, hfirst⟩ := h
  rw [List.flatten_append] at hcs
  have hlen := congrArg List.length hcs
  simp only [List.length_append, List.nil_append] at hlen hle hfirst
  constructor
  · rintro rfl
    exact ⟨taken, rest, rfl, by omega, by omega⟩
  · -- no later cut is needed than the one at the end of `head`
    rintro ⟨taken', rest', hsplit, h1, h2⟩
    have := hfirst taken' rest' hsplit h1
    exact (List.append_inj hcs (by omega)).2

/-! ### Reading a given number of elements -/

/-- Exactly `n` elements, and the chunks left; `none` when the stream ends before. -/
def readExactly : ℕ → List (List α) → Option (List α × List (List α))
  | 0, cs => some ([], cs)
  | _ + 1, [] => none
  | n + 1, c :: cs =>
    if n + 1 < c.length then some (c.take (n + 1), c.drop (n + 1) :: cs)
    else (readExactly (n + 1 - c.length) cs).map fun r => (c ++ r.1, r.2)

omit [DecidableEq α] in
theorem length_of_readExactly {n : ℕ} {x : List α} {cs rest : List (List α)}
    (h : readExactly n cs = some (x, rest)) : x.length = n := by
  induction cs generalizing n x rest with
  | nil =>
    cases n with
    | zero =>
      obtain ⟨rfl, -⟩ := Prod.mk.inj (Option.some.inj h)
      rfl
    | succ n => nomatch h
  | cons c cs ih =>
    cases n with
    | zero =>
      obtain ⟨rfl, -⟩ := Prod.mk.inj (Option.some.inj h)
      rfl
    | succ n =>
      rw [readExactly] at h
      split_ifs at h with hlt
      · obtain ⟨rfl, -⟩ := Prod.mk.inj (Option.some.inj h)
        exact List.length_take_of_le (Nat.le_of_lt hlt)
      · obtain ⟨⟨x', rest'⟩, hread, heq⟩ := Option.map_eq_some_iff.mp h
        obtain ⟨rfl, -⟩ := Prod.mk.inj heq
        rw [List.length_append, ih hread]
        omega

omit [DecidableEq α] in
/-- Reading a given number of elements takes no more chunks than it needs. -/
theorem readExactly_append {n : ℕ} {x : List α} {cs rest : List (List α)}
    (h : readExactly n cs = some (x, rest)) (more : List (List α)) :
    readExactly n (cs ++ more) = some (x, rest ++ more) := by
  induction cs generalizing n x rest with
  | nil =>
    cases n with
    | zero =>
      obtain ⟨rfl, rfl⟩ := Prod.mk.inj (Option.some.inj h)
      cases more with
      | nil => rfl
      | cons c more => rfl
    | succ n => cases h
  | cons c cs ih =>
    cases n with
    | zero =>
      obtain ⟨rfl, rfl⟩ := Prod.mk.inj (Option.some.inj h)
      rfl
    | succ n =>
      rw [readExactly] at h
      rw [List.cons_append, readExactly]
      split_ifs at h ⊢ with hlt
      · obtain ⟨rfl, rfl⟩ := Prod.mk.inj (Option.some.inj h)
        rfl
      · obtain ⟨⟨x', rest'⟩, hread, heq⟩ := Option.map_eq_some_iff.mp h
        obtain ⟨rfl, rfl⟩ := Prod.mk.inj heq
        rw [ih hread]
        rfl

omit [DecidableEq α] in
/-- **Reading a given number of elements** takes them and leaves the rest of the stream, with its
cuts. -/
theorem readExactly_spec {x y : List α} {cs : List (List α)} (h : cs.flatten = x ++ y) :
    ∃ rest, readExactly x.length cs = some (x, rest) ∧ rest.flatten = y ∧
      ∀ lo hi, 0 < lo → (CutIn rest lo hi ↔ CutIn cs (x.length + lo) (x.length + hi)) := by
  induction cs generalizing x with
  | nil =>
    obtain ⟨rfl, rfl⟩ := List.append_eq_nil_iff.mp (by rw [← h]; rfl : x ++ y = [])
    exact ⟨[], rfl, rfl, fun lo hi _ => by simp⟩
  | cons c cs ih =>
    cases hx : x.length with
    | zero =>
      rw [List.length_eq_zero_iff] at hx
      subst hx
      exact ⟨c :: cs, rfl, h, fun lo hi _ => by simp⟩
    | succ n =>
      rw [readExactly]
      rw [List.flatten_cons] at h
      by_cases hlen : n + 1 < c.length
      · -- `x` ends inside the chunk
        obtain ⟨c', rfl⟩ : x <+: c := List.prefix_of_prefix_length_le
          (List.prefix_append x y) (h ▸ List.prefix_append c cs.flatten) (by omega)
        rw [List.append_assoc] at h
        rw [if_pos hlen, ← hx, List.take_left, List.drop_left]
        refine ⟨c' :: cs, rfl, List.append_cancel_left h, fun lo hi hlo => ?_⟩
        rw [cutIn_cons_iff hlo, cutIn_cons_iff (by omega)]
        simp only [List.length_append, Nat.add_assoc, Nat.add_le_add_iff_left]
      · -- the whole chunk is taken
        obtain ⟨x', rfl⟩ : c <+: x := List.prefix_of_prefix_length_le
          (h ▸ List.prefix_append c cs.flatten) (List.prefix_append x y) (by omega)
        rw [List.append_assoc] at h
        obtain ⟨rest, hread, hrest, hcuts⟩ := ih (List.append_cancel_left h)
        have hlen' : n + 1 - c.length = x'.length := by
          rw [← hx, List.length_append]
          omega
        rw [if_neg hlen, hlen', hread]
        refine ⟨rest, rfl, hrest, fun lo hi hlo => ?_⟩
        rw [hcuts lo hi hlo, ← hx, List.length_append, cutIn_cons_iff (by omega), CutIn]
        simp only [Nat.add_assoc, Nat.add_le_add_iff_left]

end Chunks
