import WebSocketsLib.Client.Base64
import WebSocketsLib.Http.Equiv.Base64

/-!
# The two base64 encoders

`WebSocketClient::base64_encode` decides on padding by an index that never exceeds the length of the
input: it completes the last group with zero bytes and writes no `=` (`base64Loop_eq`).
`encoders_agree_iff` says on which inputs that is base64.
-/

namespace WebSocketsLib

namespace WebSocketClient

open Base64

/-! ### One group -/

/-- `(a << 16) | (b << 8) | c`. -/
def group (a b c : UInt8) : UInt32 :=
  a.toUInt32 <<< 16 ||| b.toUInt32 <<< 8 ||| c.toUInt32

theorem group_toNat (a b c : UInt8) :
    (group a b c).toNat = a.toNat * 65536 + b.toNat * 256 + c.toNat := by
  have ha := a.toNat_lt
  have hb := b.toNat_lt
  have hc := c.toNat_lt
  have hhigh : (a.toUInt32 <<< 16).toNat = 2 ^ 16 * a.toNat := by
    rw [UInt32.toNat_shiftLeft, UInt8.toNat_toUInt32, Nat.shiftLeft_eq]
    show a.toNat * 2 ^ 16 % 2 ^ 32 = 2 ^ 16 * a.toNat
    omega
  have hmid : (b.toUInt32 <<< 8).toNat = 2 ^ 8 * b.toNat := by
    rw [UInt32.toNat_shiftLeft, UInt8.toNat_toUInt32, Nat.shiftLeft_eq]
    show b.toNat * 2 ^ 8 % 2 ^ 32 = 2 ^ 8 * b.toNat
    omega
  have hlow : 2 ^ 8 * b.toNat ||| c.toNat = 2 ^ 8 * b.toNat + c.toNat :=
    (Nat.two_pow_add_eq_or_of_lt hc _).symm
  rw [group, UInt32.toNat_or, UInt32.toNat_or, UInt8.toNat_toUInt32, hhigh, hmid, Nat.lor_assoc,
    hlow, ← Nat.two_pow_add_eq_or_of_lt (by omega)]
  omega

/-- The four characters of a group. -/
theorem group_chars (a b c : UInt8) :
    [base64Char (group a b c >>> 18), base64Char (group a b c >>> 12),
      base64Char (group a b c >>> 6), base64Char (group a b c)] = quartet a b c := by
  have ha := a.toNat_lt
  have hb := b.toNat_lt
  have hc := c.toNat_lt
  have hfirst : base64Char (group a b c >>> 18) = char (a.toNat / 4) := by
    show base64Char (group a b c >>> UInt32.ofNat 18) = _
    rw [base64Char_shiftRight _ (by omega), group_toNat]
    congr 1
    omega
  have hsecond : base64Char (group a b c >>> 12) = char (a.toNat % 4 * 16 + b.toNat / 16) := by
    show base64Char (group a b c >>> UInt32.ofNat 12) = _
    rw [base64Char_shiftRight _ (by omega), group_toNat]
    congr 1
    omega
  have hthird : base64Char (group a b c >>> 6) = char (b.toNat % 16 * 4 + c.toNat / 64) := by
    show base64Char (group a b c >>> UInt32.ofNat 6) = _
    rw [base64Char_shiftRight _ (by omega), group_toNat]
    congr 1
    omega
  have hfourth : base64Char (group a b c) = char (c.toNat % 64) := by
    rw [base64Char_eq, group_toNat]
    congr 1
    omega
  rw [hfirst, hsecond, hthird, hfourth, quartet]

/-! ### The loop -/

section

variable {data rest : Bytes} {b : UInt8} {i : ℕ}

theorem lt_length_of_drop (h : data.drop i = b :: rest) : i < data.length := by
  by_contra hle
  rw [List.drop_eq_nil_of_le (by omega)] at h
  cases h

theorem drop_succ_of_drop (h : data.drop i = b :: rest) : data.drop (i + 1) = rest := by
  rw [← List.drop_drop, h]
  rfl

/-- There is a byte at `i`: the index moves past it. -/
theorem base64Operand_cons (h : data.drop i = b :: rest) (shift : UInt32) :
    base64Operand data shift i = (b.toUInt32 <<< shift, i + 1) := by
  have hget : data.getD i 0 = b := by
    rw [List.getD_eq_getElem?_getD, ← List.head?_drop, h]
    rfl
  rw [base64Operand, if_pos (lt_length_of_drop h), hget]

/-- The end: the index stays. -/
theorem base64Operand_nil (h : data.drop i = []) (shift : UInt32) :
    base64Operand data shift i = (0, i) := by
  have hle : data.length ≤ i := List.drop_eq_nil_iff.mp h
  exact if_neg (Nat.not_lt.mpr hle)

theorem base64Loop_nil (h : data.drop i = []) (fuel : ℕ) : base64Loop data fuel i = [] := by
  have hle : data.length ≤ i := List.drop_eq_nil_iff.mp h
  cases fuel with
  | zero => rfl
  | succ fuel => exact if_neg (Nat.not_lt.mpr hle)

/-- One round, with the operands that it has read and the index after them: the index is never
beyond the end, so neither test for `=` is true. -/
theorem base64Loop_round {fuel j k l : ℕ} {v₀ v₁ v₂ : UInt32} (hi : i < data.length)
    (h₀ : base64Operand data 16 i = (v₀, j)) (h₁ : base64Operand data 8 j = (v₁, k))
    (h₂ : base64Operand data 0 k = (v₂, l)) (hl : l ≤ data.length) :
    base64Loop data (fuel + 1) i
      = [base64Char ((v₀ ||| v₁ ||| v₂) >>> 18), base64Char ((v₀ ||| v₁ ||| v₂) >>> 12),
          base64Char ((v₀ ||| v₁ ||| v₂) >>> 6), base64Char (v₀ ||| v₁ ||| v₂)]
        ++ base64Loop data fuel l := by
  rw [base64Loop, if_pos hi]
  simp only [h₀, h₁, h₂]
  rw [if_neg (by omega), if_neg (by omega)]
  rfl

end

/-- **The loop** from any group on: zero bytes complete the last group. -/
theorem base64Loop_eq (data rest : Bytes) :
    ∀ fuel i, data.drop i = rest → rest.length ≤ fuel →
      base64Loop data fuel i = encodeZeroFilled rest := by
  induction rest using induction_groups with
  | nil =>
    intro fuel i hdrop _
    exact base64Loop_nil hdrop fuel
  | one a =>
    intro fuel i hdrop hfuel
    obtain ⟨fuel, rfl⟩ : ∃ n, fuel = n + 1 := Nat.exists_eq_add_one.mpr hfuel
    have hend := drop_succ_of_drop hdrop
    rw [base64Loop_round (lt_length_of_drop hdrop) (base64Operand_cons hdrop 16)
      (base64Operand_nil hend 8) (base64Operand_nil hend 0) (lt_length_of_drop hdrop),
      base64Loop_nil hend, List.append_nil, encodeZeroFilled]
    exact group_chars a 0 0
  | two a b =>
    intro fuel i hdrop hfuel
    obtain ⟨fuel, rfl⟩ : ∃ n, fuel = n + 1 :=
      Nat.exists_eq_add_one.mpr (Nat.lt_of_lt_of_le (by simp) hfuel)
    have hsecond := drop_succ_of_drop hdrop
    have hend := drop_succ_of_drop hsecond
    rw [base64Loop_round (lt_length_of_drop hdrop) (base64Operand_cons hdrop 16)
      (base64Operand_cons hsecond 8) (base64Operand_nil hend 0) (lt_length_of_drop hsecond),
      base64Loop_nil hend, List.append_nil, encodeZeroFilled]
    exact group_chars a b 0
  | more a b c rest ih =>
    intro fuel i hdrop hfuel
    obtain ⟨fuel, rfl⟩ : ∃ n, fuel = n + 1 :=
      Nat.exists_eq_add_one.mpr (Nat.lt_of_lt_of_le (by simp) hfuel)
    have hsecond := drop_succ_of_drop hdrop
    have hthird := drop_succ_of_drop hsecond
    have hrest := drop_succ_of_drop hthird
    have hlen : rest.length ≤ fuel := by
      simp only [List.length_cons] at hfuel
      omega
    have hshift : c.toUInt32 <<< 0 = c.toUInt32 := by
      simp
    rw [base64Loop_round (lt_length_of_drop hdrop) (base64Operand_cons hdrop 16)
      (base64Operand_cons hsecond 8) (base64Operand_cons hthird 0) (lt_length_of_drop hthird),
      ih fuel _ hrest hlen, encodeZeroFilled, hshift]
    exact congrArg (· ++ encodeZeroFilled rest) (group_chars a b c)

/-- The client completes the last group with zero bytes. -/
theorem base64Encode_eq (data : Bytes) : base64Encode data = encodeZeroFilled data :=
  base64Loop_eq data data data.length 0 rfl (Nat.le_refl _)

/-! ### Agreement -/

/-- **The two encoders** agree, and the client's text decodes to the bytes it was made of, exactly
on the inputs whose length is divisible by three. -/
theorem encoders_agree_iff (data : Bytes) :
    (base64Encode data = WebSocketsLib.base64Encode data ↔ data.length % 3 = 0) ∧
    (decode (generateKey data) = some data ↔ data.length % 3 = 0) := by
  rw [generateKey, base64Encode_eq, WebSocketsLib.base64Encode_eq]
  exact ⟨encodeZeroFilled_eq_encode_iff data, decode_encodeZeroFilled_eq_iff data⟩

/-- A key of sixteen bytes, as `generate_key` makes it: its text is not base64. -/
theorem not_encoders_agree_key :
    ¬ (base64Encode (List.replicate 16 0) = WebSocketsLib.base64Encode (List.replicate 16 0) ∧
      decode (generateKey (List.replicate 16 0)) = some (List.replicate 16 0)) := by
  decide +kernel

end WebSocketClient

end WebSocketsLib
