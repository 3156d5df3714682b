import WebSocketsLib.Http.Equiv.Request
import WebSocketsLib.Server.Equiv.DoRead

/-!
# Which `Content-Length` is taken

`Request::content_length` compares the number of characters that `std::stoull` has used with the
length of the value, so that no text may follow the number; but `std::stoull` takes a sign.
`contentLength_eq` lists what is accepted, and `decimalLength_iff` says that exactly the signed
numbers are wrong: for every other value the length is the decimal number or there is none, and
`do_read` sizes a body from a decimal number only.
-/

namespace WebSocketsLib

/-! ### The values that the parser stores -/

theorem mem_entries_set {h : Headers} {key value : Bytes} {e : Bytes × Bytes}
    (he : e ∈ (h.set key value).entries) : e.2 = value ∨ e ∈ h.entries := by
  unfold Headers.set at he
  split_ifs at he with hkey
  · obtain ⟨e', he', heq⟩ := List.mem_map.mp he
    split_ifs at heq
    · exact Or.inl (heq ▸ rfl)
    · exact Or.inr (heq ▸ he')
  · rcases List.mem_append.mp he with he | he
    · exact Or.inr he
    · exact Or.inl (List.mem_singleton.mp he ▸ rfl)

/-- Values are stored without the white space around them. -/
theorem trimmed_parseHeaderLines (lines : List Bytes) {headers : Headers}
    (h : ∀ e ∈ headers.entries, Trimmed e.2) :
    ∀ e ∈ (parseHeaderLines lines headers).entries, Trimmed e.2 := by
  induction lines generalizing headers with
  | nil => exact h
  | cons line lines ih =>
    rw [parseHeaderLines]
    dsimp only
    split_ifs with hnil
    · exact h
    · cases hcolon : (dropCr line).idxOf? 0x3A with
      | none => exact ih h
      | some col =>
        apply ih
        intro e he
        rcases mem_entries_set he with hvalue | he
        · rw [hvalue]
          exact trimmed_trim _
        · exact h e he

theorem trimmed_of_find? {data key v : Bytes}
    (h : (parseHttpRequest data).headers.find? key = some v) : Trimmed v := by
  have hempty : ∀ e ∈ Headers.empty.entries, Trimmed e.2 := fun e he => absurd he List.not_mem_nil
  obtain ⟨e, hfind, rfl⟩ := Option.map_eq_some_iff.mp h
  exact trimmed_parseHeaderLines _ hempty e (List.mem_of_find?_eq_some hfind)

/-! ### The numbers that are accepted -/

/-- A string of decimal digits, and its value, which is below `2 ^ 64`. -/
def IsDecimal (v : Bytes) (n : ℕ) : Prop :=
  v ≠ [] ∧ (∀ c ∈ v, isDigit c = true) ∧ digitsValue v = n ∧ n < UInt64.size

/-- A sign and a decimal number. -/
def IsSigned (v : Bytes) : Prop :=
  ∃ sign digits n, v = sign :: digits ∧ (sign = 0x2B ∨ sign = 0x2D) ∧ IsDecimal digits n

theorem not_isDecimal_sign {sign : UInt8} (hsign : sign = 0x2B ∨ sign = 0x2D) (digits : Bytes)
    (n : ℕ) : ¬IsDecimal (sign :: digits) n := by
  rintro ⟨-, hall, -⟩
  obtain ⟨-, hminus, hplus⟩ := isDigit_ne (hall sign (List.mem_cons_self ..))
  exact hsign.elim hplus hminus

/-- All of `s` is digits that are used, and their value is `n`. -/
theorem isDecimal_iff_takeWhile (s : Bytes) (n : ℕ) : IsDecimal s n ↔
    ¬(s.takeWhile isDigit = [] ∨ digitsValue (s.takeWhile isDigit) ≥ UInt64.size) ∧
      digitsValue (s.takeWhile isDigit) = n ∧ (s.takeWhile isDigit).length = s.length := by
  constructor
  · rintro ⟨hne, hall, hvalue, hlt⟩
    have heq : s.takeWhile isDigit = s := List.takeWhile_eq_self_iff.mpr hall
    rw [heq, hvalue]
    exact ⟨not_or.mpr ⟨hne, Nat.not_le.mpr hlt⟩, rfl, rfl⟩
  · rintro ⟨hok, hvalue, hlen⟩
    have heq : s.takeWhile isDigit = s := (List.takeWhile_prefix isDigit).eq_of_length hlen
    rw [heq] at hok hvalue
    obtain ⟨hne, hlt⟩ := not_or.mp hok
    exact ⟨hne, List.takeWhile_eq_self_iff.mp heq, hvalue, hvalue ▸ Nat.not_le.mp hlt⟩

/-- What `std::stoull` uses whole, of a text that does not begin with white space or a sign. -/
theorem stoull_eq_some_iff_of_noSign {s : Bytes} (hspace : ∀ c ∈ s.head?, isSpace c = false)
    (hsign : ¬(s.head? = some 0x2D ∨ s.head? = some 0x2B)) (n : ℕ) :
    stoull s = some (n, s.length) ↔ IsDecimal s n := by
  have hspaces : s.takeWhile isSpace = [] ∧ s.dropWhile isSpace = s := by
    cases s with
    | nil => exact ⟨rfl, rfl⟩
    | cons c s =>
      rw [List.takeWhile_cons, List.dropWhile_cons, hspace c rfl]
      exact ⟨rfl, rfl⟩
  rw [isDecimal_iff_takeWhile, stoull]
  simp only [hspaces.1, hspaces.2, if_neg hsign, if_neg (not_or.mp hsign).1, List.drop_zero,
    List.length_nil, Nat.zero_add]
  split_ifs with hbad
  · exact iff_of_false not_false fun h => h.1 hbad
  · rw [Option.some_inj, Prod.mk.injEq]
    exact ⟨fun h => ⟨hbad, h⟩, And.right⟩

/-- What it uses whole, behind a sign. -/
theorem stoull_sign_eq_some_iff {sign : UInt8} (hsign : sign = 0x2B ∨ sign = 0x2D)
    (digits : Bytes) (n : ℕ) : stoull (sign :: digits) = some (n, (sign :: digits).length) ↔
      ∃ m, IsDecimal digits m ∧
        n = if sign = 0x2D then (UInt64.size - m) % UInt64.size else m := by
  have hstoull : stoull (sign :: digits)
      = if digits.takeWhile isDigit = [] ∨ digitsValue (digits.takeWhile isDigit) ≥ UInt64.size
        then none
        else some (if sign = 0x2D
          then (UInt64.size - digitsValue (digits.takeWhile isDigit)) % UInt64.size
          else digitsValue (digits.takeWhile isDigit), 1 + (digits.takeWhile isDigit).length) := by
    rcases hsign with rfl | rfl
    · rw [stoull]
      simp [isSpace]
    · rw [stoull]
      simp [isSpace]
  simp only [hstoull, isDecimal_iff_takeWhile]
  by_cases hbad : digits.takeWhile isDigit = [] ∨
      digitsValue (digits.takeWhile isDigit) ≥ UInt64.size
  · rw [if_pos hbad]
    refine iff_of_false (Option.some_ne_none _).symm ?_
    rintro ⟨m, ⟨hok, -⟩, -⟩
    exact hok hbad
  · rw [if_neg hbad, Option.some_inj, Prod.mk.injEq, List.length_cons]
    constructor
    · rintro ⟨hn, hlen⟩
      exact ⟨_, ⟨hbad, rfl, by omega⟩, hn.symm⟩
    · rintro ⟨m, ⟨-, rfl, hlen⟩, hn⟩
      exact ⟨hn.symm, by omega⟩

/-- A stored value is a length if `std::stoull` uses it whole. -/
theorem contentLength_eq_some_iff {h : Headers} {v : Bytes}
    (hv : h.find? (bytes "content-length") = some v) (n : ℕ) :
    h.contentLength = some n ↔ stoull v = some (n, v.length) := by
  have hget : h.getHeaderValue (bytes "content-length") = v := by
    rw [Headers.getHeaderValue, hv]
    rfl
  rw [Headers.contentLength, hget]
  split_ifs with hnil
  · rw [hnil]
    exact iff_of_false not_false (Option.some_ne_none _).symm
  · rcases stoull v with _ | ⟨val, index⟩
    · exact iff_of_false (Option.some_ne_none _).symm (Option.some_ne_none _).symm
    · dsimp only
      rw [Option.some_inj, Prod.mk.injEq]
      split_ifs with hindex
      · exact iff_of_false not_false fun h => hindex h.2
      · rw [Option.some_inj]
        exact ⟨fun h => ⟨h, not_not.mp hindex⟩, And.left⟩

/-- **What is accepted** is a decimal number, or one behind a sign. -/
theorem contentLength_iff {h : Headers} {v : Bytes}
    (hv : h.find? (bytes "content-length") = some v) (htrim : Trimmed v) :
    (∀ n, h.contentLength = some n ↔ IsDecimal v n) ↔ ¬IsSigned v := by
  constructor
  · rintro haccepts ⟨sign, digits, m, rfl, hsign, hm⟩
    have hlength := (contentLength_eq_some_iff hv _).mpr
      ((stoull_sign_eq_some_iff hsign digits _).mpr ⟨m, hm, rfl⟩)
    exact not_isDecimal_sign hsign digits _ ((haccepts _).mp hlength)
  · intro hunsigned n
    rw [contentLength_eq_some_iff hv]
    by_cases hhead : v.head? = some 0x2D ∨ v.head? = some 0x2B
    · obtain ⟨sign, digits, rfl, hsign⟩ : ∃ sign digits, v = sign :: digits ∧
          (sign = 0x2B ∨ sign = 0x2D) := by
        cases v with
        | nil => simp at hhead
        | cons sign digits => exact ⟨sign, digits, rfl, by simpa [or_comm] using hhead⟩
      rw [stoull_sign_eq_some_iff hsign]
      refine iff_of_false ?_ (not_isDecimal_sign hsign digits n)
      rintro ⟨m, hm, -⟩
      exact hunsigned ⟨sign, digits, m, rfl, hsign, hm⟩
    · exact stoull_eq_some_iff_of_noSign htrim.head hhead n

/-! ### The body -/

theorem length_of_coReadBody {socket rest : Socket} {buf body buf' : Bytes} {n : ℕ}
    (h : coReadBody socket buf n = some (body, buf', rest)) : body.length = n := by
  unfold coReadBody at h
  obtain ⟨⟨x, socket'⟩, hread, h⟩ := Option.bind_eq_some_iff.mp h
  obtain ⟨rfl, -⟩ := Prod.mk.inj (Option.some.inj h)
  rw [List.length_append, List.length_take, Chunks.length_of_readExactly hread]
  omega

/-- The body that `do_read` returns has the length that the head announces. -/
theorem length_body_of_doRead {socket rest : Socket} {req : Request} {data : Bytes}
    (hread : doRead socket = some (req, rest))
    (hdata : (coReadHeaders socket []).map Prod.fst = some data) :
    req.body.length = (parseHttpRequest data).contentLength.getD 0 := by
  rw [doRead_eq] at hread
  obtain ⟨⟨text, buf, socket'⟩, hheaders, hread⟩ := Option.bind_eq_some_iff.mp hread
  rw [hheaders] at hdata
  obtain rfl : text = data := Option.some.inj hdata
  obtain ⟨⟨body, buf', rest'⟩, hbody, heq⟩ := Option.map_eq_some_iff.mp hread
  obtain ⟨rfl, -⟩ := Prod.mk.inj heq
  exact length_of_coReadBody hbody

/-- A stored `Content-Length` is taken as the decimal number that it is, or not at all. -/
structure DecimalLength (data v : Bytes) : Prop where
  accepts : ∀ n, (parseHttpRequest data).contentLength = some n ↔ IsDecimal v n
  sizes : ∀ socket req rest, doRead socket = some (req, rest) →
    (coReadHeaders socket []).map Prod.fst = some data → req.body ≠ [] →
    IsDecimal v req.body.length

/-- **The stored value** is taken as a decimal number exactly when it is not a signed one. -/
theorem decimalLength_iff {data v : Bytes}
    (hv : (parseHttpRequest data).headers.find? (bytes "content-length") = some v) :
    DecimalLength data v ↔ ¬IsSigned v := by
  rw [← contentLength_iff hv (trimmed_of_find? hv)]
  refine ⟨DecimalLength.accepts, fun haccepts => ⟨haccepts, ?_⟩⟩
  intro socket req rest hread hdata hbody
  have hlen := length_body_of_doRead hread hdata
  have hpos : req.body.length ≠ 0 := fun h => hbody (List.length_eq_zero_iff.mp h)
  apply (haccepts _).mp
  show (parseHttpRequest data).contentLength = _
  rcases hlength : (parseHttpRequest data).contentLength with _ | n
  · rw [hlength] at hlen
    exact absurd hlen hpos
  · rw [hlength] at hlen
    rw [hlen]
    rfl

/-- A request with the value `5`. -/
theorem decimalLength_iff_five :
    DecimalLength (bytes "GET / HTTP/1.1\r\nContent-Length: 5\r\n\r\n") (bytes "5") := by
  apply (decimalLength_iff (by rfl)).mpr
  rintro ⟨sign, digits, n, heq, hsign, -⟩
  obtain ⟨rfl, -⟩ := List.cons.inj heq
  exact absurd hsign (by decide)

/-- A request with the value `+5`, from which a body of 5 bytes is read. -/
theorem not_decimalLength_plus : ¬∀ data v,
    (parseHttpRequest data).headers.find? (bytes "content-length") = some v →
      DecimalLength data v := by
  intro h
  have hplus := h (bytes "GET / HTTP/1.1\r\nContent-Length: +5\r\n\r\n") (bytes "+5") (by rfl)
  exact not_isDecimal_sign (Or.inl rfl) (bytes "5") 5 ((hplus.accepts 5).mp (by rfl))

end WebSocketsLib
