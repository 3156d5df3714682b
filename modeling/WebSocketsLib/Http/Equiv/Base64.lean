import WebSocketsLib.Http.Base64
import WebSocketsLib.Lib.Base64
import WebSocketsLib.Lib.BigEndian

/-!
# `base64_encode` is base64

`base64Encode_eq`: the loop over the accumulator computes the encoding of RFC 4648.

The accumulator keeps all the bytes it can hold, but only its low `valb + 6` bits are still to be
written, and what it has lost at the top is never looked at.  `base64Round_first`,
`base64Round_second` and `base64Round_third` are the rounds of one group of three bytes, from any
accumulator.
-/

namespace WebSocketsLib

open Base64 BigEndian

/-! ### Characters -/

theorem base64Char_eq (v : UInt32) : base64Char v = char (v.toNat % 64) := by
  have hand : (v &&& 0x3F).toNat = v.toNat % 64 := by
    rw [UInt32.toNat_and]
    exact Nat.and_two_pow_sub_one_eq_mod v.toNat 6
  rw [base64Char, hand]
  rfl

/-- The character of six bits of the accumulator. -/
theorem base64Char_shiftRight (v : UInt32) {k : ℕ} (hk : k < 32) :
    base64Char (v >>> UInt32.ofNat k) = char (v.toNat / 2 ^ k % 64) := by
  have hshift : (UInt32.ofNat k).toNat % 32 = k := by
    rw [UInt32.toNat_ofNat']
    omega
  rw [base64Char_eq, UInt32.toNat_shiftRight, hshift, Nat.shiftRight_eq_div_pow]

/-! ### The rounds of a group -/

/-- `(val << 8) | src[i]`. -/
def shiftIn (val : UInt32) (b : UInt8) : UInt32 :=
  val <<< 8 ||| b.toUInt32

theorem shiftLeft_toNat (val : UInt32) : (val <<< 8).toNat = val.toNat % 2 ^ 24 * 256 := by
  rw [UInt32.toNat_shiftLeft, Nat.shiftLeft_eq]
  show val.toNat * 2 ^ 8 % 2 ^ 32 = val.toNat % 2 ^ 24 * 256
  omega

/-- The accumulator loses its top byte. -/
theorem shiftIn_toNat (val : UInt32) (b : UInt8) :
    (shiftIn val b).toNat = val.toNat % 2 ^ 24 * 256 + b.toNat := by
  have hshift : (val <<< 8).toNat = (val.toNat % 2 ^ 24) <<< 8 := by
    rw [shiftLeft_toNat, Nat.shiftLeft_eq]
  rw [shiftIn, UInt32.toNat_or, hshift, UInt8.toNat_toUInt32, or_eq_add]

variable (out : Bytes) (val : UInt32) (a b c : UInt8)

theorem base64Round_first :
    base64Round { out, val, valb := -6 } a
      = { out := out ++ [char (a.toNat / 4)], val := shiftIn val a, valb := -4 } := by
  have hchar : base64Char (shiftIn val a >>> UInt32.ofNat 2) = char (a.toNat / 4) := by
    have ha := a.toNat_lt
    rw [base64Char_shiftRight _ (by omega), shiftIn_toNat]
    congr 1
    omega
  rw [← hchar]
  rfl

theorem base64Round_second :
    base64Round { out, val := shiftIn val a, valb := -4 } b
      = { out := out ++ [char (a.toNat % 4 * 16 + b.toNat / 16)], val := shiftIn (shiftIn val a) b,
          valb := -2 } := by
  have hchar : base64Char (shiftIn (shiftIn val a) b >>> UInt32.ofNat 4)
      = char (a.toNat % 4 * 16 + b.toNat / 16) := by
    have ha := a.toNat_lt
    have hb := b.toNat_lt
    rw [base64Char_shiftRight _ (by omega), shiftIn_toNat, shiftIn_toNat]
    congr 1
    omega
  rw [← hchar]
  rfl

theorem base64Round_third :
    base64Round { out, val := shiftIn (shiftIn val a) b, valb := -2 } c
      = { out := out ++ [char (b.toNat % 16 * 4 + c.toNat / 64), char (c.toNat % 64)],
          val := shiftIn (shiftIn (shiftIn val a) b) c, valb := -6 } := by
  have hb := b.toNat_lt
  have hc := c.toNat_lt
  have hchar : base64Char (shiftIn (shiftIn (shiftIn val a) b) c >>> UInt32.ofNat 6)
      = char (b.toNat % 16 * 4 + c.toNat / 64) := by
    rw [base64Char_shiftRight _ (by omega), shiftIn_toNat, shiftIn_toNat, shiftIn_toNat]
    congr 1
    omega
  have hlast : base64Char (shiftIn (shiftIn (shiftIn val a) b) c >>> UInt32.ofNat 0)
      = char (c.toNat % 64) := by
    rw [base64Char_shiftRight _ (by omega), shiftIn_toNat]
    congr 1
    omega
  rw [← hchar, ← hlast]
  rfl

/-! ### The last group -/

theorem base64Finish_group {out : Bytes} (hout : out.length % 4 = 0) :
    base64Finish { out, val, valb := -6 } = out := by
  show out ++ List.replicate ((4 - out.length % 4) % 4) 0x3D = out
  rw [hout]
  exact List.append_nil out

/-- The bits that are left are shifted up to a last character, and the group is padded. -/
theorem base64Finish_leftover {out : Bytes} {valb : ℤ} (hvalb : valb > -6) :
    base64Finish { out, val, valb }
      = (out ++ [base64Char ((val <<< 8) >>> UInt32.ofNat (valb + 8).toNat)])
        ++ List.replicate ((4 - (out.length + 1) % 4) % 4) 0x3D := by
  rw [base64Finish, if_pos hvalb, List.length_append, List.length_singleton]

/-- Two bits are left of a single byte. -/
theorem base64Finish_first {out : Bytes} (hout : out.length % 4 = 0) :
    base64Finish { out := out ++ [char (a.toNat / 4)], val := shiftIn val a, valb := -4 }
      = out ++ [char (a.toNat / 4), char (a.toNat % 4 * 16), pad, pad] := by
  have hchar : base64Char ((shiftIn val a <<< 8) >>> UInt32.ofNat 4)
      = char (a.toNat % 4 * 16) := by
    have ha := a.toNat_lt
    rw [base64Char_shiftRight _ (by omega), shiftLeft_toNat, shiftIn_toNat]
    congr 1
    omega
  have hpad : (4 - ((out ++ [char (a.toNat / 4)]).length + 1) % 4) % 4 = 2 := by
    rw [List.length_append, List.length_singleton]
    omega
  have hlast : (-4 + 8 : ℤ).toNat = 4 := rfl
  rw [base64Finish_leftover _ (by omega), hpad, hlast, hchar, List.append_assoc, List.append_assoc]
  rfl

/-- Four bits are left of two bytes. -/
theorem base64Finish_second {out : Bytes} (hout : out.length % 4 = 0) :
    base64Finish { out := out ++ [char (a.toNat / 4), char (a.toNat % 4 * 16 + b.toNat / 16)],
                   val := shiftIn (shiftIn val a) b, valb := -2 }
      = out ++ [char (a.toNat / 4), char (a.toNat % 4 * 16 + b.toNat / 16),
          char (b.toNat % 16 * 4), pad] := by
  have hchar : base64Char ((shiftIn (shiftIn val a) b <<< 8) >>> UInt32.ofNat 6)
      = char (b.toNat % 16 * 4) := by
    have hb := b.toNat_lt
    rw [base64Char_shiftRight _ (by omega), shiftLeft_toNat, shiftIn_toNat]
    congr 1
    omega
  have hpad : (4 - ((out ++ [char (a.toNat / 4), char (a.toNat % 4 * 16 + b.toNat / 16)]).length
      + 1) % 4) % 4 = 1 := by
    simp only [List.length_append, List.length_cons, List.length_nil]
    omega
  have hlast : (-2 + 8 : ℤ).toNat = 6 := rfl
  rw [base64Finish_leftover _ (by omega), hpad, hlast, hchar, List.append_assoc, List.append_assoc]
  rfl

/-! ### The encoder -/

/-- The loop and what follows it, from the end of any group and with any accumulator. -/
theorem base64Finish_foldl (src : Bytes) :
    ∀ (out : Bytes) (val : UInt32), out.length % 4 = 0 →
      base64Finish (src.foldl base64Round { out, val, valb := -6 }) = out ++ encode src := by
  induction src using induction_groups with
  | nil =>
    intro out val hout
    rw [List.foldl_nil, base64Finish_group val hout, encode, List.append_nil]
  | one a =>
    intro out val hout
    rw [List.foldl_cons, List.foldl_nil, base64Round_first, base64Finish_first val a hout, encode]
  | two a b =>
    intro out val hout
    rw [List.foldl_cons, List.foldl_cons, List.foldl_nil, base64Round_first, base64Round_second,
      List.append_assoc, List.singleton_append, base64Finish_second val a b hout, encode]
  | more a b c rest ih =>
    intro out val hout
    have hgroup : (out ++ quartet a b c).length % 4 = 0 := by
      rw [List.length_append, quartet]
      simp only [List.length_cons, List.length_nil]
      omega
    rw [List.foldl_cons, List.foldl_cons, List.foldl_cons, base64Round_first, base64Round_second,
      base64Round_third, List.append_assoc, List.append_assoc]
    show base64Finish (rest.foldl base64Round { out := out ++ quartet a b c, val := _, valb := -6 })
      = _
    rw [ih _ _ hgroup, encode, List.append_assoc]

/-- The encoder is the one of RFC 4648. -/
theorem base64Encode_eq (src : Bytes) : base64Encode src = encode src :=
  base64Finish_foldl src [] 0 rfl

/-- **The server's `base64_encode` is base64**: its length, its padding, and the decoder that gives
its input back. -/
theorem base64Encode_rfc4648 (src : Bytes) :
    (base64Encode src).length = 4 * ((src.length + 2) / 3) ∧
    (∃ text, base64Encode src = text ++ List.replicate ((3 - src.length % 3) % 3) pad ∧
      pad ∉ text) ∧
    decode (base64Encode src) = some src := by
  rw [base64Encode_eq]
  exact ⟨length_encode src, encode_eq_append_pad src, decode_encode src⟩

end WebSocketsLib
