import Mathlib.Data.List.Basic
import Mathlib.Tactic.Common

/-!
# Base64

The encoding of RFC 4648, section 4, with its padding, and the decoder that accepts exactly the
canonical texts: the alphabet, quartets of characters, and `=` at the end of the last quartet in
place of what the input has no bytes for.

* `decode_encode`: decoding inverts encoding.
* `length_encode`, `encode_eq_append_pad`: how long a text is, and where its `=` are.

`encodeZeroFilled` is the encoder that completes the last group with zero bytes instead of padding.
It agrees with `encode` on the inputs of a length divisible by three only
(`encodeZeroFilled_eq_encode_iff`), and its texts decode to the input with the zeros
(`decode_encodeZeroFilled`).
-/

namespace Base64

/-! ### The alphabet -/

def alphabet : List UInt8 :=
  "ABCDEFGHIJKLMNOPQRSTUVWXYZabcdefghijklmnopqrstuvwxyz0123456789+/".toList.map fun c =>
    UInt8.ofNat c.toNat

/-- The character of a number below 64. -/
def char (n : ℕ) : UInt8 :=
  alphabet.getD n 0

/-- The number of a character. -/
def value? (c : UInt8) : Option ℕ :=
  alphabet.idxOf? c

/-- `=`. -/
def pad : UInt8 := 0x3D

theorem value?_char {n : ℕ} (h : n < 64) : value? (char n) = some n := by
  have hall : ∀ m < 64, value? (char m) = some m := by decide +kernel
  exact hall n h

theorem char_ne_pad {n : ℕ} (h : n < 64) : char n ≠ pad := by
  have hall : ∀ m < 64, char m ≠ pad := by decide +kernel
  exact hall n h

/-! ### Groups -/

/-- The four characters of three bytes. -/
def quartet (a b c : UInt8) : List UInt8 :=
  [char (a.toNat / 4), char (a.toNat % 4 * 16 + b.toNat / 16),
    char (b.toNat % 16 * 4 + c.toNat / 64), char (c.toNat % 64)]

/-- The encoding. -/
def encode : List UInt8 → List UInt8
  | [] => []
  | [a] => [char (a.toNat / 4), char (a.toNat % 4 * 16), pad, pad]
  | [a, b] =>
    [char (a.toNat / 4), char (a.toNat % 4 * 16 + b.toNat / 16), char (b.toNat % 16 * 4), pad]
  | a :: b :: c :: rest => quartet a b c ++ encode rest

/-- The encoding of the bytes followed by the zero bytes that complete the last group. -/
def encodeZeroFilled : List UInt8 → List UInt8
  | [] => []
  | [a] => quartet a 0 0
  | [a, b] => quartet a b 0
  | a :: b :: c :: rest => quartet a b c ++ encodeZeroFilled rest

/-- Three bytes from four characters. -/
def decodeQuartet (c₀ c₁ c₂ c₃ : UInt8) : Option (List UInt8) := do
  let w ← value? c₀
  let x ← value? c₁
  let y ← value? c₂
  let z ← value? c₃
  some [UInt8.ofNat (w * 4 + x / 16), UInt8.ofNat (x % 16 * 16 + y / 4),
    UInt8.ofNat (y % 4 * 64 + z)]

/-- The last quartet, which may be padded; the bits that the padding cuts off are zero. -/
def decodeLast (c₀ c₁ c₂ c₃ : UInt8) : Option (List UInt8) :=
  if c₃ ≠ pad then decodeQuartet c₀ c₁ c₂ c₃
  else do
    let w ← value? c₀
    let x ← value? c₁
    if c₂ = pad then
      if x % 16 = 0 then some [UInt8.ofNat (w * 4 + x / 16)] else none
    else
      let y ← value? c₂
      if y % 4 = 0 then
        some [UInt8.ofNat (w * 4 + x / 16), UInt8.ofNat (x % 16 * 16 + y / 4)]
      else none

/-- The decoder. -/
def decode : List UInt8 → Option (List UInt8)
  | [] => some []
  | c₀ :: c₁ :: c₂ :: c₃ :: rest =>
    if rest = [] then decodeLast c₀ c₁ c₂ c₃
    else do
      let out ← decodeQuartet c₀ c₁ c₂ c₃
      let more ← decode rest
      some (out ++ more)
  | _ => none

/-- The induction that follows the groups. -/
theorem induction_groups {P : List UInt8 → Prop} (nil : P []) (one : ∀ a, P [a])
    (two : ∀ a b, P [a, b]) (more : ∀ a b c rest, P rest → P (a :: b :: c :: rest))
    (bs : List UInt8) : P bs := by
  induction bs using encode.induct with
  | case1 => exact nil
  | case2 a => exact one a
  | case3 a b => exact two a b
  | case4 a b c rest ih => exact more a b c rest ih

/-! ### Decoding -/

theorem ofNat_eq {n : ℕ} {b : UInt8} (h : n = b.toNat) : UInt8.ofNat n = b := by
  rw [h, UInt8.ofNat_toNat]

/-- The characters of a group give its bytes back. -/
theorem decodeQuartet_quartet (a b c : UInt8) :
    decodeQuartet (char (a.toNat / 4)) (char (a.toNat % 4 * 16 + b.toNat / 16))
      (char (b.toNat % 16 * 4 + c.toNat / 64)) (char (c.toNat % 64)) = some [a, b, c] := by
  have ha := a.toNat_lt
  have hb := b.toNat_lt
  have hc := c.toNat_lt
  rw [decodeQuartet, value?_char (by omega), value?_char (by omega), value?_char (by omega),
    value?_char (by omega)]
  have h₀ : a.toNat / 4 * 4 + (a.toNat % 4 * 16 + b.toNat / 16) / 16 = a.toNat := by omega
  have h₁ : (a.toNat % 4 * 16 + b.toNat / 16) % 16 * 16 + (b.toNat % 16 * 4 + c.toNat / 64) / 4
      = b.toNat := by omega
  have h₂ : (b.toNat % 16 * 4 + c.toNat / 64) % 4 * 64 + c.toNat % 64 = c.toNat := by omega
  simp only [Option.bind_eq_bind, Option.bind_some, ofNat_eq h₀, ofNat_eq h₁, ofNat_eq h₂]

/-- A whole group at the front of a text. -/
theorem decode_quartet_append (a b c : UInt8) (rest : List UInt8) :
    decode (quartet a b c ++ rest) = (decode rest).map ([a, b, c] ++ ·) := by
  have hc : c.toNat % 64 < 64 := Nat.mod_lt _ (by omega)
  rw [quartet, List.cons_append, List.cons_append, List.cons_append, List.cons_append,
    List.nil_append, decode]
  split_ifs with hrest
  · rw [decodeLast, if_pos (char_ne_pad hc), decodeQuartet_quartet, hrest]
    rfl
  · rw [decodeQuartet_quartet]
    cases decode rest with
    | none => rfl
    | some more => rfl

/-- **Decoding inverts encoding.** -/
theorem decode_encode (bs : List UInt8) : decode (encode bs) = some bs := by
  induction bs using induction_groups with
  | nil => rfl
  | one a =>
    have ha := a.toNat_lt
    have h₀ : a.toNat / 4 * 4 + a.toNat % 4 * 16 / 16 = a.toNat := by omega
    rw [encode, decode, if_pos rfl, decodeLast, if_neg (not_not_intro rfl),
      value?_char (by omega), value?_char (by omega)]
    simp only [Option.bind_eq_bind, Option.bind_some, if_true, ofNat_eq h₀]
    rw [if_pos (by omega)]
  | two a b =>
    have ha := a.toNat_lt
    have hb := b.toNat_lt
    have h₀ : a.toNat / 4 * 4 + (a.toNat % 4 * 16 + b.toNat / 16) / 16 = a.toNat := by omega
    have h₁ : (a.toNat % 4 * 16 + b.toNat / 16) % 16 * 16 + b.toNat % 16 * 4 / 4 = b.toNat := by
      omega
    rw [encode, decode, if_pos rfl, decodeLast, if_neg (not_not_intro rfl),
      value?_char (by omega), value?_char (by omega)]
    simp only [Option.bind_eq_bind, Option.bind_some]
    rw [if_neg (char_ne_pad (by omega)), value?_char (by omega), Option.bind_some,
      if_pos (by omega), ofNat_eq h₀, ofNat_eq h₁]
  | more a b c rest ih =>
    rw [encode, decode_quartet_append, ih]
    rfl

/-! ### Characters of a text -/

theorem mem_quartet {a b c d : UInt8} (h : d ∈ quartet a b c) : ∃ n < 64, d = char n := by
  have ha := a.toNat_lt
  have hb := b.toNat_lt
  have hc := c.toNat_lt
  simp only [quartet, List.mem_cons, List.not_mem_nil, or_false] at h
  rcases h with h | h | h | h
  · exact ⟨_, by omega, h⟩
  · exact ⟨_, by omega, h⟩
  · exact ⟨_, by omega, h⟩
  · exact ⟨_, by omega, h⟩

theorem mem_encode {bs : List UInt8} {d : UInt8} (h : d ∈ encode bs) :
    d = pad ∨ ∃ n < 64, d = char n := by
  induction bs using induction_groups with
  | nil => cases h
  | one a =>
    have ha := a.toNat_lt
    simp only [encode, List.mem_cons, List.not_mem_nil, or_false] at h
    rcases h with h | h | h | h
    · exact Or.inr ⟨_, by omega, h⟩
    · exact Or.inr ⟨_, by omega, h⟩
    · exact Or.inl h
    · exact Or.inl h
  | two a b =>
    have ha := a.toNat_lt
    have hb := b.toNat_lt
    simp only [encode, List.mem_cons, List.not_mem_nil, or_false] at h
    rcases h with h | h | h | h
    · exact Or.inr ⟨_, by omega, h⟩
    · exact Or.inr ⟨_, by omega, h⟩
    · exact Or.inr ⟨_, by omega, h⟩
    · exact Or.inl h
  | more a b c rest ih =>
    rw [encode, List.mem_append] at h
    rcases h with h | h
    · exact Or.inr (mem_quartet h)
    · exact ih h

/-! ### Length and padding -/

/-- A text has four characters for each group, the last one perhaps incomplete. -/
theorem length_encode (bs : List UInt8) : (encode bs).length = 4 * ((bs.length + 2) / 3) := by
  induction bs using induction_groups with
  | nil => rfl
  | one a => simp [encode]
  | two a b => simp [encode]
  | more a b c rest ih =>
    rw [encode, List.length_append, ih]
    simp only [quartet, List.length_cons, List.length_nil]
    omega

theorem pad_notMem_quartet (a b c : UInt8) : pad ∉ quartet a b c := by
  intro hmem
  obtain ⟨n, hn, heq⟩ := mem_quartet hmem
  exact char_ne_pad hn heq.symm

/-- **The padding**: one `=` for each byte that the last group lacks, at the end and nowhere
else. -/
theorem encode_eq_append_pad (bs : List UInt8) :
    ∃ text, encode bs = text ++ List.replicate ((3 - bs.length % 3) % 3) pad ∧ pad ∉ text := by
  induction bs using induction_groups with
  | nil => exact ⟨[], rfl, List.not_mem_nil⟩
  | one a =>
    have ha := a.toNat_lt
    refine ⟨[_, _], rfl, fun hmem => ?_⟩
    simp only [List.mem_cons, List.not_mem_nil, or_false] at hmem
    rcases hmem with h | h
    · exact char_ne_pad (by omega) h.symm
    · exact char_ne_pad (by omega) h.symm
  | two a b =>
    have ha := a.toNat_lt
    have hb := b.toNat_lt
    refine ⟨[_, _, _], rfl, fun hmem => ?_⟩
    simp only [List.mem_cons, List.not_mem_nil, or_false] at hmem
    rcases hmem with h | h | h
    · exact char_ne_pad (by omega) h.symm
    · exact char_ne_pad (by omega) h.symm
    · exact char_ne_pad (by omega) h.symm
  | more a b c rest ih =>
    obtain ⟨text, heq, hpad⟩ := ih
    refine ⟨quartet a b c ++ text, ?_, ?_⟩
    · rw [encode, heq, List.append_assoc]
      simp only [List.length_cons, Nat.add_assoc, Nat.reduceAdd, Nat.add_mod_right]
    · rw [List.mem_append, not_or]
      exact ⟨pad_notMem_quartet a b c, hpad⟩

/-! ### Zero-filled texts -/

theorem mem_encodeZeroFilled {bs : List UInt8} {d : UInt8} (h : d ∈ encodeZeroFilled bs) :
    ∃ n < 64, d = char n := by
  induction bs using induction_groups with
  | nil => cases h
  | one a => exact mem_quartet h
  | two a b => exact mem_quartet h
  | more a b c rest ih =>
    rw [encodeZeroFilled, List.mem_append] at h
    rcases h with h | h
    · exact mem_quartet h
    · exact ih h

/-- The bytes that a zero-filled text stands for. -/
theorem decode_encodeZeroFilled (bs : List UInt8) :
    decode (encodeZeroFilled bs) = some (bs ++ List.replicate ((3 - bs.length % 3) % 3) 0) := by
  have hquartet : ∀ a b c, decode (quartet a b c) = some [a, b, c] := by
    intro a b c
    have h := decode_quartet_append a b c []
    rwa [List.append_nil] at h
  induction bs using induction_groups with
  | nil => rfl
  | one a => exact hquartet a 0 0
  | two a b => exact hquartet a b 0
  | more a b c rest ih =>
    rw [encodeZeroFilled, decode_quartet_append, ih]
    simp only [List.length_cons, Nat.add_assoc, Nat.reduceAdd, Nat.add_mod_right, Option.map_some,
      List.cons_append, List.nil_append]

/-- A zero-filled text stands for the input exactly when there is nothing to fill. -/
theorem decode_encodeZeroFilled_eq_iff (bs : List UInt8) :
    decode (encodeZeroFilled bs) = some bs ↔ bs.length % 3 = 0 := by
  rw [decode_encodeZeroFilled, Option.some.injEq, List.append_right_eq_self,
    List.replicate_eq_nil_iff]
  omega

/-- Filling with zeros gives the encoding exactly when there is nothing to fill. -/
theorem encodeZeroFilled_eq_encode_iff (bs : List UInt8) :
    encodeZeroFilled bs = encode bs ↔ bs.length % 3 = 0 := by
  constructor
  · intro heq
    apply (decode_encodeZeroFilled_eq_iff bs).mp
    rw [heq, decode_encode]
  · intro hlen
    induction bs using induction_groups with
    | nil => rfl
    | one a => cases hlen
    | two a b => cases hlen
    | more a b c rest ih =>
      rw [encodeZeroFilled, encode, ih (by simpa [Nat.add_assoc] using hlen)]

end Base64
