import Mathlib.Data.List.Basic
import Mathlib.Tactic.Common

/-!
# Cutting UTF-8

A list of bytes is UTF-8 when it encodes a sequence of Unicode scalar values.  `isUtf8_take_iff`:
a beginning of it is UTF-8 again exactly when the cut is in front of the first byte of a character.
-/

namespace Utf8

/-- `s` is the encoding of some characters. -/
def IsUtf8 (s : List UInt8) : Prop :=
  s.toByteArray.IsValidUTF8

theorem isUtf8_flatMap (cs : List Char) : IsUtf8 (cs.flatMap String.utf8EncodeChar) :=
  ByteArray.isValidUTF8_utf8Encode

/-- A beginning of a list is the same part of the byte array. -/
theorem extract_toByteArray (s : List UInt8) (k : ℕ) :
    s.toByteArray.extract 0 k = (s.take k).toByteArray := by
  apply ByteArray.ext
  rw [ByteArray.data_extract, List.data_toByteArray, List.data_toByteArray, List.extract_toArray,
    List.extract_eq_take_drop, List.drop_zero, Nat.sub_zero]

/-- **A cut of UTF-8** is UTF-8 if and only if it is made in front of a character. -/
theorem isUtf8_take_iff {s : List UInt8} (h : IsUtf8 s) {k : ℕ} (hk : k < s.length) :
    IsUtf8 (s.take k) ↔ s[k].IsUTF8FirstByte := by
  -- the position `k` in the string whose bytes are `s`
  let str : String := ⟨s.toByteArray, h⟩
  have hend : str.rawEndPos.byteIdx = s.length := List.size_toByteArray
  have hlt : (⟨k⟩ : String.Pos.Raw) < str.rawEndPos := by
    rw [String.Pos.Raw.lt_iff, hend]
    exact hk
  have hbyte : str.getUTF8Byte ⟨k⟩ hlt = s[k] := List.getElem_toByteArray
  have hcut : String.Pos.Raw.IsValid str ⟨k⟩ ↔ IsUtf8 (s.take k) := by
    rw [String.Pos.Raw.isValid_iff_isValidUTF8_extract_zero, IsUtf8, ← extract_toByteArray]
    exact and_iff_right (Nat.le_of_lt hlt)
  rw [← hcut, String.Pos.Raw.isValid_iff_isUTF8FirstByte]
  constructor
  · rintro (heq | ⟨_, hfirst⟩)
    · rw [String.Pos.Raw.ext_iff, hend] at heq
      exact absurd heq (Nat.ne_of_lt hk)
    · rwa [hbyte] at hfirst
  · intro hfirst
    exact Or.inr ⟨hlt, by rwa [hbyte]⟩

end Utf8
