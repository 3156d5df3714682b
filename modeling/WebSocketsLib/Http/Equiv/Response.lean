import WebSocketsLib.Http.Request
import WebSocketsLib.Http.Response

/-!
# The length that a head announces

`announces_prepareHeaders` in `Server.Equiv.DoWrite` and `announces_fullHead` here say that the
heads the server writes announce the length they are made for; `Head.Announces.unique` that a head
announces no other.
-/

namespace WebSocketsLib

/-! ### Numbers -/

/-- The value of a digit, as a byte and as a character. -/
theorem toNat_digit {c : Char} (h : c.isDigit = true) :
    (UInt8.ofNat c.toNat - 0x30).toNat = c.toNat - '0'.toNat := by
  simp only [Char.isDigit, Bool.and_eq_true, decide_eq_true_eq, UInt32.le_iff_toNat_le] at h
  have hlo : 48 ≤ c.toNat := h.1
  have hhi : c.toNat ≤ 57 := h.2
  rw [UInt8.toNat_sub_of_le]
  · simp only [UInt8.toNat_ofNat', UInt8.reduceToNat, Char.reduceToNat]
    omega
  · rw [UInt8.le_iff_toNat_le]
    simp only [UInt8.toNat_ofNat', UInt8.reduceToNat]
    omega

/-- **`std::to_string`** is read back. -/
theorem digitsValue_decimal (n : ℕ) : digitsValue (decimal n) = n := by
  have hdigits : ∀ c ∈ Nat.toDigits 10 n, c.isDigit = true := fun c hc =>
    Nat.isDigit_of_mem_toDigits (by decide) (by decide) hc
  calc digitsValue (decimal n)
      = (Nat.toDigits 10 n).foldl (fun v c => 10 * v + (c.toNat - '0'.toNat)) 0 := by
        rw [digitsValue, decimal, bytes, Nat.toString_eq_repr, Nat.toList_repr, List.foldl_map]
        refine List.foldl_ext _ _ 0 fun v c hc => ?_
        rw [toNat_digit (hdigits c hc), Nat.mul_comm]
    _ = n := by
        rw [← Nat.ofDigitChars_eq_foldl, Nat.ofDigitChars_toDigits (by decide) (by decide)]

theorem decimal_injective : Function.Injective decimal :=
  Function.LeftInverse.injective digitsValue_decimal

/-! ### Header maps -/

theorem caseInsensitiveEqual_congr {k k' : Bytes} (h : lower k = lower k') (s : Bytes) :
    caseInsensitiveEqual s k = caseInsensitiveEqual s k' := by
  rw [Bool.eq_iff_iff, caseInsensitiveEqual_iff, caseInsensitiveEqual_iff, h]

namespace Headers

theorem contains_congr {k k' : Bytes} (h : lower k = lower k') (hs : Headers) :
    hs.contains k = hs.contains k' := by
  simp only [contains, caseInsensitiveEqual_congr h]

theorem any_replaced (entries : List (Bytes × Bytes)) (key value key' : Bytes) :
    (replaced entries key value).any (fun e => caseInsensitiveEqual e.1 key')
      = entries.any fun e => caseInsensitiveEqual e.1 key' := by
  rw [replaced, List.any_map]
  congr 1
  funext e
  simp only [Function.comp_apply]
  split_ifs
  · rfl
  · rfl

@[simp]
theorem contains_set (h : Headers) (key value key' : Bytes) :
    (h.set key value).contains key' = (h.contains key' || caseInsensitiveEqual key key') := by
  rw [set]
  split_ifs with hkey
  · rw [contains, any_replaced, ← contains]
    cases hsame : caseInsensitiveEqual key key' with
    | false => rw [Bool.or_false]
    | true => rw [← contains_congr (caseInsensitiveEqual_iff.mp hsame), hkey, Bool.or_true]
  · simp [contains, List.any_append]

theorem entries_set_of_new {h : Headers} {key : Bytes} (hkey : h.contains key = false)
    (value : Bytes) : (h.set key value).entries = h.entries ++ [(key, value)] := by
  rw [set, dif_neg (by simp [hkey])]

end Headers

/-! ### Heads -/

/-- The head has one `Content-Length` line, with the number `n`. -/
def Head.Announces (h : Head) (n : ℕ) : Prop :=
  (h.entries.filter fun e => caseInsensitiveEqual e.1 (bytes "Content-Length")).map Prod.snd
    = [decimal n]

theorem Head.Announces.unique {h : Head} {m n : ℕ} (hm : h.Announces m) (hn : h.Announces n) :
    m = n :=
  decimal_injective (List.singleton_inj.mp (hm.symm.trans hn))

theorem Head.text_ne_nil (h : Head) : h.text ≠ [] := by
  simp [Head.text, crlf]

theorem filter_eq_nil_of_not_contains {h : Headers} {key : Bytes} (hno : h.contains key = false) :
    (h.entries.filter fun e => caseInsensitiveEqual e.1 key) = [] := by
  rw [Headers.contains, List.any_eq_false] at hno
  exact List.filter_eq_nil_iff.mpr hno

/-- A head whose last header is its only `Content-Length`. -/
theorem announces_concat (o : HeaderOrder) {h : Headers}
    (hno : h.contains (bytes "Content-Length") = false) (line : Bytes) (n : ℕ) :
    Head.Announces
      { startLine := line, entries := o.order h.entries ++ [(bytes "Content-Length", decimal n)] }
      n := by
  have hrest : ((o.order h.entries).filter
      fun e => caseInsensitiveEqual e.1 (bytes "Content-Length")) = [] := by
    refine List.Perm.eq_nil ?_
    rw [← filter_eq_nil_of_not_contains hno]
    exact (o.perm h.entries).filter _
  rw [Head.Announces, List.filter_append, hrest]
  rfl

/-- The same for a header that has been set, in any order. -/
theorem announces_set (o : HeaderOrder) {h : Headers}
    (hno : h.contains (bytes "Content-Length") = false) (line : Bytes) (n : ℕ) :
    Head.Announces
      { startLine := line
        entries := o.order (h.set (bytes "Content-Length") (decimal n)).entries } n := by
  have hperm := ((o.perm (h.set (bytes "Content-Length") (decimal n)).entries).filter
    fun e => caseInsensitiveEqual e.1 (bytes "Content-Length")).map Prod.snd
  rw [Headers.entries_set_of_new hno, List.filter_append,
    filter_eq_nil_of_not_contains hno] at hperm
  rw [Head.Announces, Headers.entries_set_of_new hno]
  exact List.perm_singleton.mp hperm

namespace Response

variable {r : Response}

/-- The head of `to_string` announces the body. -/
theorem announces_fullHead (o : HeaderOrder) (hbody : r.body ≠ [])
    (hno : r.hasHeader (bytes "Content-Length") = false) :
    (r.fullHead o).Announces r.body.length := by
  have hlower : r.headers.contains (bytes "content-length") = false :=
    (Headers.contains_congr (by decide) r.headers).trans hno
  rw [fullHead, if_pos ⟨hbody, hlower⟩]
  exact announces_concat o hno _ _

theorem hasHeader_setHeader (key value key' : Bytes) :
    (r.setHeader key value).hasHeader key' = (r.hasHeader key' || caseInsensitiveEqual key key') :=
  Headers.contains_set r.headers key value key'

end Response

end WebSocketsLib
