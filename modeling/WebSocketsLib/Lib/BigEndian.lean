import Mathlib.Data.List.Induction
import Mathlib.Data.Nat.Bitwise
import Mathlib.Tactic.NormNum
import Mathlib.Tactic.Ring

/-!
# Big-endian numerals

`toBE k n` is the `k`-byte big-endian numeral of `n` (modulo `256 ^ k`), `ofBE` reads a byte
string as a big-endian number, and gives numbers below `256 ^ k` back (`ofBE_toBE`).

The shift-and-or forms that machine code uses are related to them: `or_eq_add` turns
`(acc << 8) | b` into `acc * 256 + b`, and `foldl_shiftOr64` says that the accumulating loop over a
64-bit word computes `ofBE`.
-/

namespace BigEndian

/-- The `k` big-endian bytes of `n`, most significant first. -/
def toBE : ℕ → ℕ → List UInt8
  | 0, _ => []
  | k + 1, n => UInt8.ofNat (n >>> (8 * k)) :: toBE k n

/-- The number a byte string denotes, most significant byte first. -/
def ofBE (bs : List UInt8) : ℕ :=
  bs.foldl (fun acc b => acc * 256 + b.toNat) 0

@[simp]
theorem length_toBE (k n : ℕ) : (toBE k n).length = k := by
  induction k with
  | zero => rfl
  | succ k ih => rw [toBE, List.length_cons, ih]

/-- The accumulator of `ofBE`'s fold counts as leading digits. -/
theorem foldl_eq (acc : ℕ) (bs : List UInt8) :
    bs.foldl (fun acc b => acc * 256 + b.toNat) acc = acc * 256 ^ bs.length + ofBE bs := by
  induction bs generalizing acc with
  | nil => simp [ofBE]
  | cons b bs ih =>
    rw [ofBE, List.foldl_cons, List.foldl_cons, ih, ih (0 * 256 + b.toNat), List.length_cons,
      pow_succ]
    ring

@[simp]
theorem ofBE_nil : ofBE [] = 0 := rfl

theorem ofBE_cons (b : UInt8) (bs : List UInt8) :
    ofBE (b :: bs) = b.toNat * 256 ^ bs.length + ofBE bs := by
  rw [ofBE, List.foldl_cons, foldl_eq, Nat.zero_mul, Nat.zero_add]

/-- A byte behind a numeral shifts it by one place. -/
theorem ofBE_concat (bs : List UInt8) (b : UInt8) : ofBE (bs ++ [b]) = ofBE bs * 256 + b.toNat := by
  rw [ofBE, List.foldl_append]
  rfl

/-- A `k`-byte string denotes a number below `256 ^ k`. -/
theorem ofBE_lt (bs : List UInt8) : ofBE bs < 256 ^ bs.length := by
  induction bs with
  | nil => simp
  | cons b bs ih =>
    have hb : b.toNat + 1 ≤ 256 := b.toNat_lt
    have hmul := Nat.mul_le_mul_right (256 ^ bs.length) hb
    rw [ofBE_cons, List.length_cons, pow_succ, Nat.mul_comm _ 256]
    rw [Nat.add_mul, Nat.one_mul] at hmul
    omega

/-- **Reading back a numeral** gives the number modulo `256 ^ k`. -/
theorem ofBE_toBE_mod (k n : ℕ) : ofBE (toBE k n) = n % 256 ^ k := by
  induction k with
  | zero => rw [toBE, ofBE_nil, pow_zero, Nat.mod_one]
  | succ k ih =>
    have hpow : (2 : ℕ) ^ (8 * k) = 256 ^ k := by
      rw [show (256 : ℕ) = 2 ^ 8 by norm_num, ← pow_mul]
    have hbyte : (UInt8.ofNat (n >>> (8 * k))).toNat = n / 256 ^ k % 256 := by
      rw [UInt8.toNat_ofNat', Nat.shiftRight_eq_div_pow, hpow]
    rw [toBE, ofBE_cons, length_toBE, ih, hbyte, pow_succ, Nat.mod_mul, Nat.mul_comm, Nat.add_comm]

theorem ofBE_toBE {k n : ℕ} (h : n < 256 ^ k) : ofBE (toBE k n) = n := by
  rw [ofBE_toBE_mod, Nat.mod_eq_of_lt h]

/-- A numeral of a given length is determined by its number. -/
theorem ofBE_injective {bs cs : List UInt8} (hlen : bs.length = cs.length)
    (h : ofBE bs = ofBE cs) : bs = cs := by
  induction bs generalizing cs with
  | nil => exact (List.length_eq_zero_iff.mp hlen.symm).symm
  | cons b bs ih =>
    obtain ⟨c, cs, rfl⟩ := List.exists_cons_of_length_eq_add_one hlen.symm
    have htail : bs.length = cs.length := Nat.succ.inj hlen
    rw [ofBE_cons, ofBE_cons, ← htail] at h
    have hb : ofBE bs < 256 ^ bs.length := ofBE_lt bs
    have hc : ofBE cs < 256 ^ bs.length := htail ▸ ofBE_lt cs
    -- both are a quotient and a remainder of the same division
    have hpos : 0 < 256 ^ bs.length := Nat.pow_pos (by omega)
    have hhead : b.toNat = c.toNat := by
      have hdiv := congrArg (· / 256 ^ bs.length) h
      simp only [Nat.mul_comm _ (256 ^ bs.length), Nat.mul_add_div hpos, Nat.div_eq_of_lt hb,
        Nat.div_eq_of_lt hc, Nat.add_zero] at hdiv
      exact hdiv
    rw [hhead] at h
    rw [UInt8.toNat_inj.mp hhead, ih htail (Nat.add_left_cancel h)]

theorem toBE_ofBE (bs : List UInt8) : toBE bs.length (ofBE bs) = bs := by
  apply ofBE_injective (length_toBE _ _)
  exact ofBE_toBE (ofBE_lt bs)

/-! ### The loops over machine words -/

/-- `(acc << 8) | b` has no carries: it is `acc * 256 + b`. -/
theorem or_eq_add (acc : ℕ) (b : UInt8) : acc <<< 8 ||| b.toNat = acc * 256 + b.toNat := by
  rw [← Nat.shiftLeft_add_eq_or_of_lt b.toNat_lt, Nat.shiftLeft_eq]

/-- One round of a 64-bit accumulator that still has its top byte free. -/
theorem shiftOr64_toNat (acc : UInt64) (b : UInt8) (h : acc.toNat < 2 ^ 56) :
    (acc <<< 8 ||| b.toUInt64).toNat = acc.toNat * 256 + b.toNat := by
  rw [UInt64.toNat_or, UInt64.toNat_shiftLeft, UInt8.toNat_toUInt64, ← or_eq_add]
  congr 1
  show acc.toNat <<< 8 % 2 ^ 64 = acc.toNat <<< 8
  rw [Nat.shiftLeft_eq]
  omega

/-- **The 64-bit loop** over at most eight bytes computes `ofBE`. -/
theorem foldl_shiftOr64 (bs : List UInt8) (h : bs.length ≤ 8) :
    (bs.foldl (fun (acc : UInt64) b => acc <<< 8 ||| b.toUInt64) 0).toNat = ofBE bs := by
  induction bs using List.reverseRecOn with
  | nil => rfl
  | append_singleton bs b ih =>
    rw [List.length_append, List.length_singleton] at h
    have ih := ih (by omega)
    have hlt : ofBE bs < 2 ^ 56 := by
      have hpow : 256 ^ bs.length ≤ 256 ^ 7 := Nat.pow_le_pow_right (by omega) (by omega)
      have := ofBE_lt bs
      omega
    rw [List.foldl_append, List.foldl_cons, List.foldl_nil, shiftOr64_toNat _ _ (by rwa [ih]), ih,
      ofBE_concat]

end BigEndian
