import WebSocketsLib.Http.Equiv.Response
import WebSocketsLib.Lib.Transfers
import WebSocketsLib.Server.DoWrite

/-!
# What one response writes

`framed_doWrite`: when what `do_write` has written is one whole response, or a part of one after
which the session ends.

The three loops over a body differ only in what an outcome does to the transfer; `SendsBody` is
what they have in common.
-/

namespace WebSocketsLib

open Transfers

/-! ### Whole responses and parts of one -/

/-- A whole response: its head, and a body of the length that the head announces. -/
def Whole (ws : List Write) : Prop :=
  ∃ (h : Head) (pieces : List Bytes), ws = .head h h.text :: pieces.map .body ∧
    h.Announces pieces.flatten.length

/-- The beginning of a response: nothing, a part of its head, or its head and a part of a body of
the length that the head announces. -/
def CutShort (ws : List Write) : Prop :=
  ws = [] ∨ ∃ (h : Head) (sent : Bytes) (pieces : List Bytes) (n : ℕ),
    ws = .head h sent :: pieces.map .body ∧ sent <+: h.text ∧ h.Announces n ∧
      pieces.flatten.length ≤ n ∧ (pieces = [] ∨ sent = h.text)

/-- One whole response, or the beginning of one if the session has ended. -/
def Framed (ws : List Write) (ended : Bool) : Prop :=
  Whole ws ∨ ended = true ∧ CutShort ws

variable {h : Head} {n : ℕ} {pieces : List Bytes}

theorem sent_bodies (pieces : List Bytes) :
    (pieces.map Write.body).flatMap Write.sent = pieces.flatten := by
  rw [List.flatMap_map, List.flatMap_def]
  exact congrArg List.flatten (List.map_id pieces)

/-- The bytes of a whole response. -/
theorem Whole.bytes {ws : List Write} (hw : Whole ws) :
    ∃ h body, ws.flatMap Write.sent = Head.text h ++ body ∧ h.Announces body.length := by
  obtain ⟨h, pieces, rfl, hann⟩ := hw
  refine ⟨h, pieces.flatten, ?_, hann⟩
  rw [List.flatMap_cons, sent_bodies]
  rfl

theorem bodies_injective : Function.Injective (List.map Write.body) :=
  List.map_injective_iff.mpr fun _ _ => Write.body.inj

theorem whole_iff (hann : h.Announces n) :
    Whole (.head h h.text :: pieces.map .body) ↔ pieces.flatten.length = n := by
  constructor
  · rintro ⟨h', pieces', heq, hann'⟩
    obtain ⟨hhead, hbody⟩ := List.cons.inj heq
    obtain ⟨rfl, -⟩ := Write.head.inj hhead
    rw [bodies_injective hbody]
    exact hann'.unique hann
  · rintro rfl
    exact ⟨h, pieces, rfl, hann⟩

theorem cutShort_iff (hann : h.Announces n) :
    CutShort (.head h h.text :: pieces.map .body) ↔ pieces.flatten.length ≤ n := by
  constructor
  · rintro (hnil | ⟨h', sent, pieces', n', heq, -, hann', hle, -⟩)
    · cases hnil
    · obtain ⟨hhead, hbody⟩ := List.cons.inj heq
      obtain ⟨rfl, -⟩ := Write.head.inj hhead
      rw [bodies_injective hbody, hann.unique hann']
      exact hle
  · exact fun hle => Or.inr ⟨h, h.text, pieces, n, rfl, List.prefix_rfl, hann, hle, Or.inr rfl⟩

theorem not_whole_nil : ¬ Whole [] := by
  rintro ⟨h, pieces, heq, -⟩
  cases heq

/-! ### Writes -/

theorem pieces_head {sent : Bytes} (hsent : sent ≠ []) (h : Head) :
    (Write.head h sent).pieces = [.head h sent] :=
  if_neg hsent

theorem pieces_body {sent : Bytes} (hsent : sent ≠ []) : (Write.body sent).pieces = [.body sent] :=
  if_neg hsent

/-- The pieces of a body are pieces of the same bytes. -/
theorem exists_pieces_body (sent : Bytes) :
    ∃ pieces : List Bytes, (Write.body sent).pieces = pieces.map .body ∧ pieces.flatten = sent ∧
      (sent = [] → pieces = []) := by
  by_cases hsent : sent = []
  · exact ⟨[], if_pos hsent, hsent.symm, fun _ => rfl⟩
  · exact ⟨[sent], pieces_body hsent, List.append_nil sent, fun hnil => absurd hnil hsent⟩

theorem asyncWrite_head (h : Head) : asyncWrite h [] none = ⟨[.head h h.text], some ()⟩ := by
  rw [asyncWrite, pieces_head h.text_ne_nil]
  rfl

/-- What a completed write has sent. -/
theorem sent_asyncWrite (h : Head) (body : Bytes) :
    (asyncWrite h body none).out.flatMap Write.sent = h.text ++ body := by
  obtain ⟨pieces, hpieces, hflat, -⟩ := exists_pieces_body body
  rw [asyncWrite, pieces_head h.text_ne_nil, hpieces, Output.emitAll_out, List.singleton_append,
    List.flatMap_cons, sent_bodies, hflat]
  rfl

/-- A failed write of a head with a body after it. -/
theorem asyncWrite_fail (hann : h.Announces n) (body : Bytes) (hle : body.length ≤ n) (k : ℕ) :
    (asyncWrite h body (some k)).result = none ∧ CutShort (asyncWrite h body (some k)).out := by
  refine ⟨rfl, ?_⟩
  simp only [asyncWrite, Output.bind_out, Output.emitAll_out, Output.emitAll_result,
    Option.elim_some, Output.throw_out, List.append_nil]
  by_cases hsent : h.text.take k = []
  · -- nothing has got out
    obtain rfl : k = 0 := by
      rcases List.take_eq_nil_iff.mp hsent with hk | hk
      · exact hk
      · exact absurd hk h.text_ne_nil
    exact Or.inl (by simp [Write.pieces, Write.sent])
  · obtain ⟨pieces, hpieces, hflat, hnil⟩ := exists_pieces_body (body.take (k - h.text.length))
    refine Or.inr ⟨h, h.text.take k, pieces, n, ?_, List.take_prefix k _, hann, ?_, ?_⟩
    · rw [pieces_head hsent, hpieces]
      rfl
    · rw [hflat, List.length_take]
      omega
    · by_cases hk : k ≤ h.text.length
      · exact Or.inl (hnil (by rw [Nat.sub_eq_zero_of_le hk]; rfl))
      · exact Or.inr (List.take_of_length_le (by omega))

/-- A regular response is written whole, or an exception ends the session. -/
theorem framed_asyncWrite {body : Bytes} (hann : h.Announces body.length) (o : WriteOutcome)
    (keepAlive : Bool) :
    Framed (asyncWrite h body o).out ((asyncWrite h body o).result.isNone || !keepAlive) := by
  cases o with
  | none =>
    obtain ⟨pieces, hpieces, hflat, -⟩ := exists_pieces_body body
    refine Or.inl ⟨h, pieces, ?_, by rwa [hflat]⟩
    rw [asyncWrite, pieces_head h.text_ne_nil, hpieces]
    rfl
  | some k =>
    obtain ⟨hresult, hcut⟩ := asyncWrite_fail hann body le_rfl k
    exact Or.inr ⟨by rw [hresult]; rfl, hcut⟩

/-! ### Transfers of a body -/

/-- A body, or a part of it, has been written for a response that announces `n` bytes.  `short` is
that it has been given up without an exception. -/
structure SendsBody {α : Type} (w : Writing α) (n : ℕ) (short : Prop) (pieces : List Bytes) :
    Prop where
  out : w.out = pieces.map .body
  le : pieces.flatten.length ≤ n
  returned : w.result ≠ none → (pieces.flatten.length = n ↔ ¬ short)
  raised : w.result = none → ¬ short

/-- **A head and the transfer of its body** are one whole response, or a part of one after which the
session ends, exactly when the transfer is not given up on a connection that is kept alive. -/
theorem SendsBody.framed {α : Type} {w : Writing α} {short : Prop}
    (hw : SendsBody w n short pieces) (hann : h.Announces n) (keepAlive : Bool) :
    Framed (.head h h.text :: w.out) (w.result.isNone || !keepAlive)
      ↔ (keepAlive = true → ¬ short) := by
  rw [Framed, hw.out, whole_iff hann, cutShort_iff hann, and_iff_left hw.le]
  cases hr : w.result with
  | none => exact iff_of_true (Or.inr rfl) fun _ => hw.raised hr
  | some a =>
    rw [hw.returned (by rw [hr]; exact Option.some_ne_none a)]
    cases keepAlive with
    | true => simp
    | false => simp

/-- A coroutine that only goes on to return something else. -/
theorem SendsBody.map {α β : Type} {w : Writing α} {short : Prop}
    (hw : SendsBody w n short pieces) (f : α → β) :
    SendsBody (w >>= fun a => pure (f a)) n short pieces := by
  have hnone : (w >>= fun a => (pure (f a) : Writing β)).result = none ↔ w.result = none := by
    cases hr : w.result with
    | none => simp [hr]
    | some a => simp [hr]
  refine ⟨?_, hw.le, fun hr => hw.returned fun hn => hr (hnone.mpr hn),
    fun hr => hw.raised (hnone.mp hr)⟩
  rw [Output.bind_out, ← hw.out]
  cases w.result with
  | none => exact List.append_nil _
  | some a => exact List.append_nil _

/-- **More of the body** before the rest of the transfer. -/
theorem SendsBody.emit {α : Type} {w : Writing α} {short : Prop} {piece : Bytes}
    (hw : SendsBody w (n - piece.length) short pieces) (hpiece : piece ≠ [])
    (hle : piece.length ≤ n) :
    SendsBody (Output.emitAll (Write.body piece).pieces >>= fun _ => w) n short
      (piece :: pieces) := by
  have hresult : (Output.emitAll (Write.body piece).pieces >>= fun _ => w).result = w.result := by
    rw [Output.bind_result, Output.emitAll_result, Option.bind_some]
  have hlen : (piece :: pieces).flatten.length = piece.length + pieces.flatten.length := by simp
  have hwle := hw.le
  refine ⟨?_, by omega, fun hr => ?_, fun hr => ?_⟩
  · rw [Output.bind_out, Output.emitAll_out, Output.emitAll_result, pieces_body hpiece,
      Option.elim_some, hw.out]
    rfl
  · rw [hresult] at hr
    rw [← hw.returned hr]
    omega
  · rw [hresult] at hr
    exact hw.raised hr

theorem sendsBody_done {α : Type} (a : α) {short : Prop} (hshort : ¬ short) :
    SendsBody (pure a : Writing α) 0 short [] :=
  ⟨rfl, le_rfl, fun _ => iff_of_true rfl hshort, fun hr => by cases hr⟩

theorem sendsBody_stop {α : Type} (a : α) (hn : 0 < n) {short : Prop} (hshort : short) :
    SendsBody (pure a : Writing α) n short [] :=
  ⟨rfl, Nat.zero_le n, fun _ => iff_of_false (Nat.ne_of_lt hn) (not_not_intro hshort),
    fun hr => by cases hr⟩

theorem sendsBody_throw {α : Type} (n : ℕ) {short : Prop} (hshort : ¬ short) :
    SendsBody (Output.throw : Writing α) n short [] :=
  ⟨rfl, Nat.zero_le n, fun hr => absurd rfl hr, fun _ => hshort⟩

/-- What a call of `sendfile` does to the transfer. -/
def sendfileProgress : SendfileOutcome → Progress
  | .sent data => if data = [] then .stops else .moves data.length
  | .wouldBlock waited => if waited then .moves 0 else .raises
  | .error => .stops

/-- A call that sends something. -/
theorem sendfileLoop_sent {data : Bytes} (hdata : data ≠ []) (rest : List SendfileOutcome) (n : ℕ) :
    sendfileLoop (.sent data :: rest) (n + 1) = (do
      Output.emitAll (Write.body (data.take (n + 1))).pieces
      sendfileLoop rest (n + 1 - (data.take (n + 1)).length)) := by
  have htake : data.take (n + 1) ≠ [] := by simpa using hdata
  rw [sendfileLoop]
  · exact if_neg htake
  · exact n.succ_ne_zero

theorem sendsBody_sendfileLoop (outcomes : List SendfileOutcome) (n : ℕ) :
    ∃ pieces, SendsBody (sendfileLoop outcomes n) n (StopsShort sendfileProgress outcomes n)
      pieces := by
  induction outcomes generalizing n with
  | nil =>
    cases n with
    | zero => exact ⟨[], sendsBody_done 0 (not_stopsShort_zero [])⟩
    | succ n => exact ⟨[], sendsBody_throw _ (not_stopsShort_nil _)⟩
  | cons o rest ih =>
    cases n with
    | zero =>
      have heq : sendfileLoop (o :: rest) 0 = pure 0 := by cases o <;> rfl
      rw [heq]
      exact ⟨[], sendsBody_done 0 (not_stopsShort_zero _)⟩
    | succ n =>
      cases o with
      | error =>
        exact ⟨[], sendsBody_stop _ n.succ_pos (stopsShort_of_stops rfl rest n.succ_pos)⟩
      | wouldBlock waited =>
        cases waited with
        | true =>
          -- the loop goes on with as much to send as before
          have hprogress : sendfileProgress (.wouldBlock true) = .moves 0 := rfl
          rw [stopsShort_of_moves hprogress]
          exact ih (n + 1)
        | false => exact ⟨[], sendsBody_throw _ (not_stopsShort_of_raises rfl rest _)⟩
      | sent data =>
        by_cases hdata : data = []
        · subst hdata
          exact ⟨[], sendsBody_stop _ n.succ_pos (stopsShort_of_stops rfl rest n.succ_pos)⟩
        · have hprogress : sendfileProgress (.sent data) = .moves data.length := if_neg hdata
          -- `sendfile` sends at most what is left
          have htake : data.take (n + 1) ≠ [] := by simpa using hdata
          have hlen : n + 1 - data.length = n + 1 - (data.take (n + 1)).length := by
            rw [List.length_take]
            omega
          obtain ⟨pieces, hw⟩ := ih (n + 1 - (data.take (n + 1)).length)
          rw [stopsShort_of_moves hprogress, hlen, sendfileLoop_sent hdata]
          exact ⟨_, hw.emit htake (List.length_take_le _ _)⟩

/-- What a read of the file and the write after it do to the transfer. -/
def streamProgress : ReadOutcome × WriteOutcome → Progress
  | (.error, _) => .raises
  | (.data data, write) =>
    if data = [] then .stops
    else if write = none then .moves (min data.length (64 * 1024))
    else .raises

/-- A read at the end of the file. -/
theorem streamLoop_end (write : WriteOutcome) (rest : List (ReadOutcome × WriteOutcome)) (n : ℕ) :
    streamLoop ((.data [], write) :: rest) (n + 1) = pure () := by
  rw [streamLoop]
  · exact if_pos List.take_nil
  · exact n.succ_ne_zero

/-- A read of a piece, and its write. -/
theorem streamLoop_data {data : Bytes} (hdata : data ≠ []) (write : WriteOutcome)
    (rest : List (ReadOutcome × WriteOutcome)) (n : ℕ) :
    streamLoop ((.data data, write) :: rest) (n + 1) = (do
      asyncWriteBody (data.take (min (n + 1) (64 * 1024))) write
      streamLoop rest (n + 1 - (data.take (min (n + 1) (64 * 1024))).length)) := by
  have htake : data.take (min (n + 1) (64 * 1024)) ≠ [] := by simpa using hdata
  rw [streamLoop]
  · exact if_neg htake
  · exact n.succ_ne_zero

theorem sendsBody_streamLoop (chunks : List (ReadOutcome × WriteOutcome)) (n : ℕ) :
    ∃ pieces, SendsBody (streamLoop chunks n) n (StopsShort streamProgress chunks n) pieces := by
  induction chunks generalizing n with
  | nil =>
    cases n with
    | zero => exact ⟨[], sendsBody_done () (not_stopsShort_zero [])⟩
    | succ n => exact ⟨[], sendsBody_throw _ (not_stopsShort_nil _)⟩
  | cons chunk rest ih =>
    cases n with
    | zero =>
      have heq : streamLoop (chunk :: rest) 0 = pure () := by
        obtain ⟨_ | _, _⟩ := chunk <;> rfl
      rw [heq]
      exact ⟨[], sendsBody_done () (not_stopsShort_zero _)⟩
    | succ n =>
      obtain ⟨data | _, write⟩ := chunk
      case error => exact ⟨[], sendsBody_throw _ (not_stopsShort_of_raises rfl rest _)⟩
      by_cases hdata : data = []
      · subst hdata
        rw [streamLoop_end]
        exact ⟨[], sendsBody_stop _ n.succ_pos (stopsShort_of_stops rfl rest n.succ_pos)⟩
      · -- the piece that has been read
        have htake : data.take (min (n + 1) (64 * 1024)) ≠ [] := by simpa using hdata
        have hle : (data.take (min (n + 1) (64 * 1024))).length ≤ n + 1 := by
          rw [List.length_take]
          omega
        rw [streamLoop_data hdata]
        cases write with
        | none =>
          have hprogress : streamProgress (.data data, none)
              = .moves (min data.length (64 * 1024)) := if_neg hdata
          have hlen : n + 1 - min data.length (64 * 1024)
              = n + 1 - (data.take (min (n + 1) (64 * 1024))).length := by
            rw [List.length_take]
            omega
          obtain ⟨pieces, hw⟩ := ih (n + 1 - (data.take (min (n + 1) (64 * 1024))).length)
          rw [stopsShort_of_moves hprogress, hlen]
          exact ⟨_, hw.emit htake hle⟩
        | some k =>
          -- the write of the piece fails after `k` bytes
          have hprogress : streamProgress (.data data, some k) = .raises := if_neg hdata
          obtain ⟨pieces, hpieces, hflat, -⟩ :=
            exists_pieces_body ((data.take (min (n + 1) (64 * 1024))).take k)
          refine ⟨pieces, ?_, ?_, fun hr => absurd ?_ hr,
            fun _ => not_stopsShort_of_raises hprogress rest _⟩
          · simp [asyncWriteBody, hpieces]
          · rw [hflat]
            exact (List.length_take_le' _ _).trans hle
          · simp [asyncWriteBody]

/-! ### Write paths -/

theorem sendfileSize_prepareHeaders (r : Response) (n : ℕ) :
    (prepareHeaders r n).sendfileSize = r.sendfileSize := by
  rw [prepareHeaders]
  split_ifs
  · rfl
  · rfl

theorem announces_prepareHeaders (o : HeaderOrder) {r : Response}
    (hno : r.hasHeader (bytes "Content-Length") = false) (n : ℕ) :
    ((prepareHeaders r n).head o).Announces n := by
  rw [prepareHeaders, if_neg (by rw [hno]; exact Bool.false_ne_true)]
  exact announces_set o hno _ n

/-- A regular response is its `to_string_header` and its body. -/
theorem sent_writeRegularResponse (b : Build) {os : Outcomes} (hok : os.write = none)
    (r : Response) : (writeRegularResponse b os r).out.flatMap Write.sent
      = (prepareHeaders r r.body.length).toStringHeader b.order ++ r.body := by
  rw [writeRegularResponse, hok]
  split_ifs with hbody
  · rw [sent_asyncWrite, List.length_eq_zero_iff.mp hbody]
    rfl
  · exact sent_asyncWrite _ _

theorem framed_writeRegularResponse (b : Build) (os : Outcomes) {r : Response}
    (hno : r.hasHeader (bytes "Content-Length") = false) (keepAlive : Bool) :
    Framed (writeRegularResponse b os r).out
      ((writeRegularResponse b os r).result.isNone || !keepAlive) := by
  have hann := announces_prepareHeaders b.order hno r.body.length
  rw [writeRegularResponse]
  split_ifs with hbody
  · refine framed_asyncWrite ?_ os.write keepAlive
    rwa [hbody] at hann ⊢
  · exact framed_asyncWrite hann os.write keepAlive

/-- **A head that is written on its own**: an exception leaves a part of it, and otherwise the rest
of the coroutine decides. -/
theorem framed_head {α : Type} (hann : h.Announces n) (o : WriteOutcome) (rest : Writing α)
    (keepAlive : Bool) :
    Framed (asyncWrite h [] o >>= fun _ => rest).out
        ((asyncWrite h [] o >>= fun _ => rest).result.isNone || !keepAlive)
      ↔ (o = none → Framed (.head h h.text :: rest.out) (rest.result.isNone || !keepAlive)) := by
  cases o with
  | none => simp [asyncWrite_head]
  | some k =>
    obtain ⟨hresult, hcut⟩ := asyncWrite_fail hann [] (Nat.zero_le n) k
    refine iff_of_true (Or.inr ?_) nofun
    simpa [hresult] using hcut

/-- The size of the `stream_file`, if it can be opened and has one. -/
def Outcomes.streamFile (os : Outcomes) : Option ℕ :=
  if os.streamOpens then os.streamSize.filter fun n => decide (n ≠ UInt64.size - 1) else none

theorem writeStreamFile_eq (b : Build) (os : Outcomes) (r : Response) :
    writeStreamFile b os r =
      (match os.streamFile with
      | none => pure ()
      | some n => do
        asyncWrite ((prepareHeaders r n).head b.order) [] os.streamWrite
        streamLoop os.chunks n) := by
  rw [writeStreamFile, Outcomes.streamFile]
  cases os.streamOpens with
  | false => rfl
  | true =>
    cases os.streamSize with
    | none => rfl
    | some n =>
      by_cases hn : n = UInt64.size - 1
      · rw [if_pos rfl, Option.filter_some_neg (by simp [hn])]
        exact if_pos hn
      · rw [if_pos rfl, Option.filter_some_pos (by simpa using hn)]
        exact if_neg hn

/-- On a connection that is kept alive the `stream_file` can be opened, and no read returns 0 before
its end. -/
def StreamSettled (keepAlive : Bool) (os : Outcomes) : Prop :=
  keepAlive = true → ∃ n, os.streamFile = some n ∧
    (os.streamWrite = none → ¬ StopsShort streamProgress os.chunks n)

theorem framed_writeStreamFile (b : Build) (os : Outcomes) {r : Response}
    (hno : r.hasHeader (bytes "Content-Length") = false) (keepAlive : Bool) :
    Framed (writeStreamFile b os r).out ((writeStreamFile b os r).result.isNone || !keepAlive)
      ↔ StreamSettled keepAlive os := by
  rw [writeStreamFile_eq, StreamSettled]
  cases os.streamFile with
  | none =>
    -- nothing is written at all
    cases keepAlive with
    | true => exact iff_of_false (by simp [Framed, not_whole_nil]) (by simp)
    | false => exact iff_of_true (Or.inr ⟨rfl, Or.inl rfl⟩) nofun
  | some n =>
    have hann := announces_prepareHeaders b.order hno n
    obtain ⟨pieces, hw⟩ := sendsBody_streamLoop os.chunks n
    dsimp only
    rw [framed_head hann, hw.framed hann]
    simp only [Option.some.injEq, exists_eq_left']
    exact forall_comm

theorem sendsBody_sendfileFastPath (os : Outcomes) (hn : 0 < n) :
    ∃ pieces, SendsBody (sendfileFastPath os n) n
      (os.opens = false ∨ StopsShort sendfileProgress os.sendfile n) pieces := by
  rw [sendfileFastPath]
  cases os.opens with
  | false => exact ⟨[], sendsBody_stop false hn (Or.inl rfl)⟩
  | true =>
    obtain ⟨pieces, hw⟩ := sendsBody_sendfileLoop os.sendfile n
    refine ⟨pieces, ?_⟩
    simp only [Bool.true_eq_false, false_or]
    exact hw.map fun remaining => decide (remaining = 0)

/-- On a connection that is kept alive the file can be opened, and no `sendfile` fails or returns 0
before `size` bytes have been sent. -/
def SendfileSettled (keepAlive : Bool) (os : Outcomes) (size : ℕ) : Prop :=
  keepAlive = true → ¬ (os.opens = false ∨ StopsShort sendfileProgress os.sendfile size)

/-- What `TransmitFile` sends, if the file can be opened. -/
def Outcomes.transmitSent (os : Outcomes) : Bytes :=
  if os.opens then os.transmitted else []

/-- The `stream_file` is not reached, or it cannot be opened. -/
def Outcomes.NoFallback (os : Outcomes) : Prop :=
  os.opens = true ∧ os.transmitOk = true ∨ os.streamFile = none

/-- `TransmitFile` sends `size` bytes, or fewer when the connection is not kept alive; and when it
fails no second head follows. -/
def TransmitSettled (keepAlive : Bool) (os : Outcomes) (size : ℕ) : Prop :=
  (os.NoFallback → os.transmitSent.length = size ∨
    keepAlive = false ∧ os.transmitSent.length ≤ size) ∧
  (¬ os.NoFallback → os.streamWrite = some 0 ∧ os.transmitSent.length ≤ size)

theorem transmitfileFastPath_eq (os : Outcomes) : transmitfileFastPath os =
    ⟨(Write.body os.transmitSent).pieces, some (os.opens && os.transmitOk)⟩ := by
  rw [transmitfileFastPath, Outcomes.transmitSent]
  cases os.opens with
  | false => rfl
  | true => exact congrArg (Output.mk · (some os.transmitOk)) (List.append_nil _)

/-- A second head is in no response. -/
theorem not_framed_twoHeads (h : Head) (sent : Bytes) (ws : List Write) {w : Write} (hw : w ∈ ws)
    (hhead : ∃ h' sent', w = .head h' sent') (ended : Bool) :
    ¬ Framed (.head h sent :: ws) ended := by
  have hno : ∀ pieces : List Bytes, ws ≠ pieces.map .body := by
    rintro pieces rfl
    obtain ⟨piece, -, rfl⟩ := List.mem_map.mp hw
    obtain ⟨h', sent', heq⟩ := hhead
    cases heq
  rintro (⟨h', pieces, heq, -⟩ | ⟨-, hnil | ⟨h', sent', pieces, m, heq, -⟩⟩)
  · exact hno pieces (List.cons.inj heq).2
  · cases hnil
  · exact hno pieces (List.cons.inj heq).2

/-- The end of a response without more output. -/
theorem framed_bodies (hann : h.Announces n) (ended : Bool) :
    Framed (.head h h.text :: pieces.map .body) ended
      ↔ pieces.flatten.length = n ∨ ended = true ∧ pieces.flatten.length ≤ n := by
  rw [Framed, whole_iff hann, cutShort_iff hann]

/-- After a failed `TransmitFile` the `stream_file` path writes a second head. -/
theorem framed_fallback (hann : h.Announces n) (h' : Head) (pieces : List Bytes) (o : WriteOutcome)
    (rest : Writing Unit) (keepAlive : Bool) :
    Framed (.head h h.text :: (pieces.map .body ++ (asyncWrite h' [] o >>= fun _ => rest).out))
        ((asyncWrite h' [] o >>= fun _ => rest).result.isNone || !keepAlive)
      ↔ o = some 0 ∧ pieces.flatten.length ≤ n := by
  have hsecond : ∀ sent : Bytes, Write.head h' sent ∈ (asyncWrite h' [] o >>= fun _ => rest).out →
      ∀ ended, ¬ Framed (.head h h.text ::
        (pieces.map .body ++ (asyncWrite h' [] o >>= fun _ => rest).out)) ended :=
    fun sent hmem ended => not_framed_twoHeads h h.text _ (List.mem_append_right _ hmem)
      ⟨h', sent, rfl⟩ ended
  -- only a second head of which not even the first byte has got out does no harm
  cases o with
  | none => exact iff_of_false (hsecond h'.text (by simp [asyncWrite_head]) _) nofun
  | some k =>
    cases k with
    | zero =>
      have hout : (asyncWrite h' [] (some 0) >>= fun _ => rest).out = [] := by
        simp [asyncWrite, Write.pieces, Write.sent]
      have hresult : (asyncWrite h' [] (some 0) >>= fun _ => rest).result = none := by
        simp [asyncWrite]
      rw [hout, hresult, List.append_nil, framed_bodies hann]
      simp only [Option.isNone_none, Bool.true_or, true_and, or_iff_right_iff_imp]
      exact le_of_eq
    | succ k =>
      have hsent : h'.text.take (k + 1) ≠ [] := by simpa using h'.text_ne_nil
      refine iff_of_false (hsecond (h'.text.take (k + 1)) ?_ _) (fun hk => by cases hk.1)
      simp [asyncWrite, pieces_head hsent]

/-- The condition on a file response, by the path that `write_file_response` takes. -/
def FileSettled (b : Build) (socket : SocketType) (keepAlive : Bool) (os : Outcomes) (size : ℕ) :
    Prop :=
  if socket = .tcp ∧ size > 0 then
    match b.platform with
    | .linux => os.write = none → SendfileSettled keepAlive os size
    | .win32 => os.write = none → TransmitSettled keepAlive os size
    | .other => StreamSettled keepAlive os
  else StreamSettled keepAlive os

theorem framed_transmit (b : Build) (os : Outcomes) (hann : h.Announces n) (r : Response)
    (keepAlive : Bool) {w : Writing Unit}
    (hw : w = transmitfileFastPath os >>= fun ok =>
      if ok = true then pure () else writeStreamFile b os r) :
    Framed (.head h h.text :: w.out) (w.result.isNone || !keepAlive)
      ↔ TransmitSettled keepAlive os n := by
  obtain ⟨pieces, hpieces, hflat, -⟩ := exists_pieces_body os.transmitSent
  rw [transmitfileFastPath_eq, hpieces] at hw
  rw [TransmitSettled, ← hflat]
  -- nothing follows what `TransmitFile` has sent
  have hquiet : os.NoFallback → w.out = pieces.map .body → w.result = some () →
      (Framed (.head h h.text :: w.out) (w.result.isNone || !keepAlive)
        ↔ (os.NoFallback → pieces.flatten.length = n ∨
            keepAlive = false ∧ pieces.flatten.length ≤ n) ∧
          (¬ os.NoFallback → os.streamWrite = some 0 ∧ pieces.flatten.length ≤ n)) := by
    intro hno hout hresult
    rw [hout, hresult, framed_bodies hann, and_iff_left (fun hyes => absurd hno hyes)]
    simp [hno]
  cases hok : os.opens && os.transmitOk with
  | true =>
    rw [hok] at hw
    refine hquiet (Or.inl (by simpa using hok)) ?_ ?_
    · rw [hw]
      exact List.append_nil _
    · rw [hw]
      rfl
  | false =>
    rw [hok] at hw
    cases hfile : os.streamFile with
    | none =>
      rw [writeStreamFile_eq, hfile] at hw
      refine hquiet (Or.inr hfile) ?_ ?_
      · rw [hw]
        exact List.append_nil _
      · rw [hw]
        rfl
    | some m =>
      have hyes : ¬ os.NoFallback := by
        rintro (⟨hopens, htransmit⟩ | hnone)
        · rw [hopens, htransmit] at hok
          cases hok
        · rw [hfile] at hnone
          cases hnone
      rw [writeStreamFile_eq, hfile] at hw
      have hout : w.out = pieces.map .body ++
          (asyncWrite ((prepareHeaders r m).head b.order) [] os.streamWrite >>= fun _ =>
            streamLoop os.chunks m).out := by
        rw [hw]
        rfl
      have hresult : w.result =
          (asyncWrite ((prepareHeaders r m).head b.order) [] os.streamWrite >>= fun _ =>
            streamLoop os.chunks m).result := by
        rw [hw]
        rfl
      rw [hout, hresult, framed_fallback hann, and_iff_right (fun hno => absurd hno hyes)]
      exact ⟨fun h _ => h, fun h => h hyes⟩

theorem framed_writeFileResponse (b : Build) (socket : SocketType) (os : Outcomes) {r : Response}
    (hno : r.hasHeader (bytes "Content-Length") = false) (keepAlive : Bool) :
    Framed (writeFileResponse b socket os r).out
        ((writeFileResponse b socket os r).result.isNone || !keepAlive)
      ↔ FileSettled b socket keepAlive os r.sendfileSize := by
  rw [writeFileResponse, FileSettled]
  by_cases hfast : socket = .tcp ∧ r.sendfileSize > 0
  · rw [if_pos hfast, if_pos hfast]
    have hann := announces_prepareHeaders b.order hno r.sendfileSize
    cases b.platform with
    | linux =>
      obtain ⟨pieces, hw⟩ := sendsBody_sendfileFastPath os hfast.2
      dsimp only
      rw [sendfileSize_prepareHeaders, framed_head hann, (hw.map fun _ => ()).framed hann,
        SendfileSettled]
    | win32 => exact (framed_head hann ..).trans (imp_congr_right fun _ =>
        framed_transmit b os hann _ keepAlive rfl)
    | other => exact framed_writeStreamFile b os hno keepAlive
  · rw [if_neg hfast, if_neg hfast]
    exact framed_writeStreamFile b os hno keepAlive

/-- **What `do_write` writes** is one whole response, or a part of one after which the session ends,
exactly when a file response meets its condition. -/
theorem framed_doWrite (b : Build) (socket : SocketType) (os : Outcomes) {r : Response}
    (hno : r.hasHeader (bytes "Content-Length") = false) (keepAlive : Bool) :
    Framed (doWrite b socket os r).out ((doWrite b socket os r).result.isNone || !keepAlive)
      ↔ (r.sendfilePath ≠ [] → FileSettled b socket keepAlive os r.sendfileSize) := by
  rw [doWrite]
  by_cases hpath : r.sendfilePath = []
  · rw [if_neg (not_not_intro hpath)]
    exact iff_of_true (framed_writeRegularResponse b os hno keepAlive)
      fun hne => absurd hpath hne
  · rw [if_pos hpath, framed_writeFileResponse b socket os hno keepAlive]
    exact ⟨fun h _ => h, fun h => h hpath⟩

end WebSocketsLib
