import WebSocketsLib.Server.Equiv.DoWrite
import Mathlib.Algebra.GroupWithZero.Nat

/-!
# The two ways of writing a file

`same_bytes`: `sendfile_fast_path` and the loop over a `stream_file` write the same bytes of a file
that does not change.

* `sent_sendfileLoop`: what the first has sent is the beginning of the file, up to the bytes that
  are left (`remainingAfter`).
* `sent_streamLoop`: what the second sends.
-/

namespace WebSocketsLib

/-- The bytes that a coroutine has written to the socket. -/
def sentBy {α : Type} (w : Writing α) : Bytes :=
  w.out.flatMap Write.sent

/-- What is sent before something else. -/
theorem sentBy_emit {α : Type} {piece : Bytes} (hpiece : piece ≠ []) (w : Writing α) :
    sentBy (Output.emitAll (Write.body piece).pieces >>= fun _ => w) = piece ++ sentBy w := by
  rw [sentBy, Output.bind_out, Output.emitAll_out, Output.emitAll_result, Option.elim_some,
    pieces_body hpiece]
  rfl

/-- Going on only to return something else sends nothing. -/
theorem sentBy_map {α β : Type} (w : Writing α) (f : α → β) :
    sentBy (w >>= fun a => pure (f a)) = sentBy w := by
  rw [sentBy, sentBy, Output.bind_out]
  cases w.result with
  | none => rw [Option.elim_none, List.append_nil]
  | some a => exact congrArg _ (List.append_nil _)

theorem result_emit {α : Type} (ws : List Write) (w : Writing α) :
    (Output.emitAll ws >>= fun _ => w).result = w.result := by
  rw [Output.bind_result, Output.emitAll_result, Option.bind_some]

theorem sendfileLoop_zero (outcomes : List SendfileOutcome) : sendfileLoop outcomes 0 = pure 0 := by
  cases outcomes with
  | nil => rfl
  | cons o rest => cases o <;> rfl

/-- The data behind an offset that has been advanced. -/
theorem drop_offset (content : Bytes) (offset count : ℕ) :
    content.drop (offset + ((content.drop offset).take count).length)
      = (content.drop offset).drop count := by
  rw [← List.drop_drop, List.length_take]
  rcases Nat.le_total count (content.drop offset).length with hle | hle
  · rw [Nat.min_eq_left hle]
  · rw [Nat.min_eq_right hle, List.drop_length, List.drop_of_length_le hle]

theorem take_ne_nil {data : Bytes} {count : ℕ} (hdata : data ≠ []) (hcount : count ≠ 0) :
    data.take count ≠ [] := by
  rw [ne_eq, List.take_eq_nil_iff, not_or]
  exact ⟨hcount, hdata⟩

/-! ### `sendfile` -/

/-- The variable `remaining` of `sendfile_fast_path` after some calls. -/
def remainingAfter : List SendfileCall → ℕ → ℕ
  | _, 0 => 0
  | [], remaining => remaining
  | .sends count :: calls, remaining =>
    if count = 0 then remaining else remainingAfter calls (remaining - min count remaining)
  | .wouldBlock waited :: calls, remaining =>
    if waited then remainingAfter calls remaining else remaining
  | .error :: _, remaining => remaining

theorem remainingAfter_zero (calls : List SendfileCall) : remainingAfter calls 0 = 0 := by
  cases calls with
  | nil => rfl
  | cons call calls => cases call <;> rfl

theorem remainingAfter_le (calls : List SendfileCall) (n : ℕ) : remainingAfter calls n ≤ n := by
  induction calls generalizing n with
  | nil => cases n <;> exact le_rfl
  | cons call calls ih =>
    cases n with
    | zero => rw [remainingAfter_zero]
    | succ n =>
      cases call with
      | sends count =>
        rw [remainingAfter]
        · split_ifs
          · exact le_rfl
          · exact (ih _).trans (Nat.sub_le _ _)
        · exact n.succ_ne_zero
      | wouldBlock waited =>
        cases waited with
        | true => exact ih (n + 1)
        | false => exact le_rfl
      | error => exact le_rfl

/-- The loop sends the data up to the bytes that remain, and returns their number. -/
structure SendsAllBut (w : Writing ℕ) (data : Bytes) (remaining : ℕ) : Prop where
  sent : sentBy w = data.take (data.length - remaining)
  returned : ∀ r, w.result = some r → r = remaining
  done : remaining = 0 → w.result = some 0

theorem sendsAllBut_done : SendsAllBut (pure 0) [] 0 :=
  ⟨rfl, fun _ hr => (Option.some.inj hr).symm, fun _ => rfl⟩

/-- The loop ends before the end of the data. -/
theorem sendsAllBut_stop {data : Bytes} (hdata : data ≠ []) :
    SendsAllBut (pure data.length) data data.length := by
  refine ⟨?_, fun _ hr => (Option.some.inj hr).symm, fun hlen => ?_⟩
  · rw [Nat.sub_self]
    rfl
  · exact absurd (List.length_eq_zero_iff.mp hlen) hdata

/-- The loop does not go on. -/
theorem sendsAllBut_throw {data : Bytes} (hdata : data ≠ []) :
    SendsAllBut Output.throw data data.length := by
  refine ⟨?_, fun _ hr => ?_, fun hlen => ?_⟩
  · rw [Nat.sub_self]
    rfl
  · cases hr
  · exact absurd (List.length_eq_zero_iff.mp hlen) hdata

/-- A piece is sent before the rest. -/
theorem SendsAllBut.emit {w : Writing ℕ} {piece rest : Bytes} {remaining : ℕ}
    (hw : SendsAllBut w rest remaining) (hpiece : piece ≠ []) (hle : remaining ≤ rest.length) :
    SendsAllBut (Output.emitAll (Write.body piece).pieces >>= fun _ => w) (piece ++ rest)
      remaining := by
  refine ⟨?_, fun r hr => ?_, fun hzero => ?_⟩
  · rw [sentBy_emit hpiece, hw.sent, List.length_append, Nat.add_sub_assoc hle,
      List.take_length_add_append]
  · exact hw.returned r (by rwa [result_emit] at hr)
  · rw [result_emit]
    exact hw.done hzero

/-- A call of `sendfile` that sends a piece of the data. -/
theorem sendfileLoop_piece {data : Bytes} {count : ℕ} (hdata : data ≠ []) (hcount : count ≠ 0)
    (rest : List SendfileOutcome) :
    sendfileLoop (.sent (data.take count) :: rest) data.length = (do
      Output.emitAll (Write.body (data.take count)).pieces
      sendfileLoop rest (data.drop count).length) := by
  obtain ⟨n, hn⟩ := Nat.exists_eq_succ_of_ne_zero (mt List.length_eq_zero_iff.mp hdata)
  have hpiece := take_ne_nil hdata hcount
  have htake : (data.take count).take (n + 1) = data.take count :=
    List.take_of_length_le (by rw [← Nat.succ_eq_add_one, ← hn]; exact List.length_take_le' _ _)
  have hrest : n + 1 - (data.take count).length = (data.drop count).length := by
    rw [List.length_drop, List.length_take, hn]
    omega
  rw [hn, Nat.succ_eq_add_one, sendfileLoop_sent hpiece, htake, hrest]

theorem remainingAfter_sends {n count : ℕ} (hcount : count ≠ 0) (calls : List SendfileCall) :
    remainingAfter (.sends count :: calls) n = remainingAfter calls (n - count) := by
  cases n with
  | zero => rw [remainingAfter_zero, Nat.zero_sub, remainingAfter_zero]
  | succ n =>
    rw [remainingAfter]
    · rw [if_neg hcount]
      congr 1
      omega
    · exact n.succ_ne_zero

/-- **What `sendfile_fast_path` has sent** from an offset on: everything up to the bytes that
remain. -/
theorem sendsAllBut_sendfileLoop (content : Bytes) (calls : List SendfileCall) (offset : ℕ) :
    SendsAllBut (sendfileLoop (sendfileResults content calls offset) (content.drop offset).length)
      (content.drop offset) (remainingAfter calls (content.drop offset).length) := by
  induction calls generalizing offset with
  | nil =>
    rw [sendfileResults]
    cases hdata : content.drop offset with
    | nil => exact sendsAllBut_done
    | cons c data => exact sendsAllBut_throw (List.cons_ne_nil c data)
  | cons call calls ih =>
    by_cases hdata : content.drop offset = []
    · rw [hdata, List.length_nil, sendfileLoop_zero, remainingAfter_zero]
      exact sendsAllBut_done
    · have hne : (content.drop offset).length ≠ 0 := mt List.length_eq_zero_iff.mp hdata
      cases call with
      | error =>
        rw [sendfileResults, sendfileLoop, remainingAfter]
        · exact sendsAllBut_stop hdata
        · exact hne
        · exact hne
      | wouldBlock waited =>
        rw [sendfileResults, sendfileLoop, remainingAfter]
        · cases waited with
          | true => exact ih offset
          | false => exact sendsAllBut_throw hdata
        · exact hne
        · exact hne
      | sends count =>
        by_cases hcount : count = 0
        · -- nothing is sent, and the loop breaks
          rw [sendfileResults, sendfileLoop, remainingAfter, hcount, List.take_zero, List.take_nil]
          · exact sendsAllBut_stop hdata
          · exact hne
          · exact hne
        · have hpiece := take_ne_nil hdata hcount
          have hrest := ih (offset + ((content.drop offset).take count).length)
          rw [drop_offset] at hrest
          have hsends := hrest.emit hpiece (remainingAfter_le calls _)
          rw [List.take_append_drop] at hsends
          rw [sendfileResults, sendfileLoop_piece hdata hcount, remainingAfter_sends hcount,
            ← List.length_drop]
          exact hsends

/-- The call is neither an error nor at the end of the file, and the socket becomes ready. -/
def SendfileCall.Proceeds : SendfileCall → Prop
  | .sends count => count ≠ 0
  | .wouldBlock waited => waited = true
  | .error => False

/-- The bytes that the call would send of a long file. -/
def SendfileCall.moved : SendfileCall → ℕ
  | .sends count => count
  | .wouldBlock _ => 0
  | .error => 0

theorem remainingAfter_of_proceeds {calls : List SendfileCall} (h : ∀ call ∈ calls, call.Proceeds)
    (n : ℕ) : remainingAfter calls n = n - (calls.map SendfileCall.moved).sum := by
  induction calls generalizing n with
  | nil => cases n <;> rfl
  | cons call calls ih =>
    obtain ⟨hcall, hcalls⟩ := List.forall_mem_cons.mp h
    rw [List.map_cons, List.sum_cons]
    cases call with
    | sends count =>
      rw [remainingAfter_sends hcall, ih hcalls, SendfileCall.moved, Nat.sub_sub]
    | wouldBlock waited =>
      obtain rfl : waited = true := hcall
      cases n with
      | zero => rw [remainingAfter_zero, Nat.zero_sub]
      | succ n =>
        rw [SendfileCall.moved, Nat.zero_add, ← ih hcalls]
        rfl
    | error => exact absurd hcall id

/-! ### `stream_file` -/

/-- A read of a piece of the data, and its write. -/
theorem streamLoop_piece {data : Bytes} {count : ℕ} (hdata : data ≠ []) (hcount : count ≠ 0)
    (hbuffer : count ≤ 64 * 1024) (rest : List (ReadOutcome × WriteOutcome)) :
    streamLoop ((.data (data.take count), none) :: rest) data.length = (do
      Output.emitAll (Write.body (data.take count)).pieces
      streamLoop rest (data.drop count).length) := by
  obtain ⟨n, hn⟩ := Nat.exists_eq_succ_of_ne_zero (mt List.length_eq_zero_iff.mp hdata)
  have hpiece := take_ne_nil hdata hcount
  have htake : (data.take count).take (min (n + 1) (64 * 1024)) = data.take count := by
    refine List.take_of_length_le ?_
    rw [List.length_take, hn]
    omega
  have hrest : n + 1 - (data.take count).length = (data.drop count).length := by
    rw [List.length_drop, List.length_take, hn]
    omega
  rw [hn, Nat.succ_eq_add_one, streamLoop_data hpiece, htake, hrest]
  rfl

/-- **What the loop over the `stream_file` sends** from an offset on, when the reads suffice. -/
theorem sent_streamLoop (content : Bytes) {sizes : List ℕ} (hsizes : ∀ size ∈ sizes, size ≠ 0)
    (offset : ℕ)
    (hsum : (content.drop offset).length ≤ (sizes.map fun size => min size (64 * 1024)).sum) :
    (streamLoop (readResults content sizes offset) (content.drop offset).length).result = some () ∧
      sentBy (streamLoop (readResults content sizes offset) (content.drop offset).length)
        = content.drop offset := by
  induction sizes generalizing offset with
  | nil =>
    have hnil : content.drop offset = [] := List.length_eq_zero_iff.mp (Nat.le_zero.mp hsum)
    rw [hnil]
    exact ⟨rfl, rfl⟩
  | cons size sizes ih =>
    obtain ⟨hsize, hsizes⟩ := List.forall_mem_cons.mp hsizes
    by_cases hdata : content.drop offset = []
    · rw [hdata]
      exact ⟨rfl, rfl⟩
    · have hcount : min size (64 * 1024) ≠ 0 := by omega
      have hle := Nat.min_le_right size (64 * 1024)
      rw [List.map_cons, List.sum_cons] at hsum
      have hrest := ih hsizes
        (offset + ((content.drop offset).take (min size (64 * 1024))).length)
      rw [drop_offset, List.length_drop] at hrest
      obtain ⟨hresult, hsent⟩ := hrest (by omega)
      rw [readResults, streamLoop_piece hdata hcount hle, result_emit,
        sentBy_emit (take_ne_nil hdata hcount), List.length_drop, hresult, hsent,
        List.take_append_drop]
      exact ⟨rfl, rfl⟩

/-! ### Both -/

/-- What the operating system does while the file is written, by either way. -/
def File.outcomes (file : File) (calls : List SendfileCall) (sizes : List ℕ) : Outcomes where
  sendfile := sendfileResults file.content calls 0
  streamSize := some file.content.length
  chunks := readResults file.content sizes 0

theorem sentBy_head_bind {α : Type} (h : Head) (w : Writing α) :
    sentBy (asyncWrite h [] none >>= fun _ => w) = h.text ++ sentBy w ∧
      (asyncWrite h [] none >>= fun _ => w).result = w.result := by
  rw [asyncWrite_head]
  exact ⟨rfl, rfl⟩

/-- What `sendfile_fast_path` has sent and returned. -/
theorem sent_sendfileFastPath (file : File) (calls : List SendfileCall) (sizes : List ℕ) :
    sentBy (sendfileFastPath (file.outcomes calls sizes) file.content.length)
        = file.content.take
            (file.content.length - remainingAfter calls file.content.length) ∧
      ((sendfileFastPath (file.outcomes calls sizes) file.content.length).result = some true ↔
        remainingAfter calls file.content.length = 0) := by
  have hloop := sendsAllBut_sendfileLoop file.content calls 0
  rw [List.drop_zero] at hloop
  obtain ⟨hsent, hreturned, hdone⟩ := hloop
  have hpath : sendfileFastPath (file.outcomes calls sizes) file.content.length = (do
      let remaining ← sendfileLoop (sendfileResults file.content calls 0) file.content.length
      pure (decide (remaining = 0))) := rfl
  rw [hpath]
  generalize sendfileLoop (sendfileResults file.content calls 0) file.content.length = w at *
  constructor
  · rw [← hsent]
    exact sentBy_map w _
  · rw [Output.bind_result]
    constructor
    · intro h
      obtain ⟨r, hr, hzero⟩ := Option.bind_eq_some_iff.mp h
      rw [← hreturned r hr]
      simpa using hzero
    · intro h
      rw [hdone h]
      rfl

/-- **`sendfile_fast_path` and the `stream_file`** write the same bytes: the first has always sent
the beginning of the file up to the bytes that remain, it returns `true` exactly when that is the
whole file, and without an error the whole responses agree. -/
theorem same_bytes (b : Build) (hb : b.platform = .linux) (file : File)
    (hpos : 0 < file.content.length) (r : Response) (hsize : r.sendfileSize = file.content.length)
    (calls : List SendfileCall) (sizes : List ℕ) :
    sentBy (sendfileFastPath (file.outcomes calls sizes) file.content.length)
        = file.content.take
            (file.content.length - remainingAfter calls file.content.length) ∧
      ((sendfileFastPath (file.outcomes calls sizes) file.content.length).result = some true ↔
        sentBy (sendfileFastPath (file.outcomes calls sizes) file.content.length)
          = file.content) ∧
      ((∀ call ∈ calls, call.Proceeds) →
        file.content.length ≤ (calls.map SendfileCall.moved).sum →
        (∀ size ∈ sizes, size ≠ 0) →
        file.content.length ≤ (sizes.map fun size => min size (64 * 1024)).sum →
        (writeFileResponse b .tcp (file.outcomes calls sizes) r).result = some () ∧
        (writeFileResponse b .ssl (file.outcomes calls sizes) r).result = some () ∧
        sentBy (writeFileResponse b .tcp (file.outcomes calls sizes) r)
          = sentBy (writeFileResponse b .ssl (file.outcomes calls sizes) r)) := by
  obtain ⟨hsent, htrue⟩ := sent_sendfileFastPath file calls sizes
  refine ⟨hsent, ?_, ?_⟩
  · rw [htrue, hsent]
    constructor
    · intro hzero
      rw [hzero, Nat.sub_zero, List.take_length]
    · intro hall
      have hlen := congrArg List.length hall
      rw [List.length_take] at hlen
      have hle := remainingAfter_le calls file.content.length
      omega
  · intro hcalls hcallsum hsizes hsizesum
    have hzero : remainingAfter calls file.content.length = 0 := by
      rw [remainingAfter_of_proceeds hcalls]
      omega
    have hfast : r.sendfileSize > 0 := by omega
    -- the head is that of one size
    have htcp : writeFileResponse b .tcp (file.outcomes calls sizes) r = (do
        asyncWrite ((prepareHeaders r file.content.length).head b.order) [] none
        let _ok ← sendfileFastPath (file.outcomes calls sizes) file.content.length
        pure ()) := by
      rw [writeFileResponse, if_pos ⟨rfl, hfast⟩, hb, ← hsize]
      dsimp only
      rw [sendfileSize_prepareHeaders]
      rfl
    have hssl : writeFileResponse b .ssl (file.outcomes calls sizes) r = (do
        asyncWrite ((prepareHeaders r file.content.length).head b.order) [] none
        streamLoop (readResults file.content sizes 0) file.content.length) := by
      have hlt := file.length_lt
      have hlen : ¬ file.content.length = UInt64.size - 1 := by
        rw [UInt64.size] at hlt ⊢
        omega
      rw [writeFileResponse, if_neg (by rintro ⟨h, -⟩; cases h), writeStreamFile]
      exact if_neg hlen
    have hstream := sent_streamLoop file.content hsizes 0
    rw [List.drop_zero] at hstream
    obtain ⟨hstreamResult, hstreamSent⟩ := hstream hsizesum
    have hfastResult := htrue.mpr hzero
    refine ⟨?_, ?_, ?_⟩
    · rw [htcp, (sentBy_head_bind _ _).2, Output.bind_result, hfastResult]
      rfl
    · rw [hssl, (sentBy_head_bind _ _).2, hstreamResult]
    · rw [htcp, hssl, (sentBy_head_bind _ _).1, (sentBy_head_bind _ _).1, hstreamSent]
      refine congrArg (HAppend.hAppend _) ((sentBy_map _ _).trans ?_)
      rw [hsent, hzero, Nat.sub_zero, List.take_length]

/-- Three bytes in two pieces, with a full socket in between. -/
theorem same_bytes_threeBytes :
    sentBy (writeFileResponse ⟨.linux, ⟨id, fun _ => .refl _⟩⟩ .tcp
        (File.outcomes ⟨[1, 2, 3], by decide⟩ [.sends 2, .wouldBlock true, .sends 5] [1, 1, 1])
        { sendfilePath := bytes "/f", sendfileSize := 3 })
      = sentBy (writeFileResponse ⟨.linux, ⟨id, fun _ => .refl _⟩⟩ .ssl
        (File.outcomes ⟨[1, 2, 3], by decide⟩ [.sends 2, .wouldBlock true, .sends 5] [1, 1, 1])
        { sendfilePath := bytes "/f", sendfileSize := 3 }) := by
  refine ((same_bytes _ rfl ⟨[1, 2, 3], by decide⟩ (by decide) _ rfl _ _).2.2 ?_ (by decide) ?_
    (by decide)).2.2
  · simp [SendfileCall.Proceeds]
  · decide

end WebSocketsLib
