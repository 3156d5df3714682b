import WebSocketsLib.Http.Equiv.Request
import WebSocketsLib.Server.Equiv.DoRead

/-!
# Writing and reading a request

`doRead_toStringFull`: what `Request::to_string` writes is what `do_read` reads, for every iteration
order of the headers and however the stream is cut.
-/

namespace WebSocketsLib

/-- A request whose text can be read back. -/
structure Request.Sendable (r : Request) : Prop where
  target : IsWord r.target
  version : IsWord r.version
  names : ∀ e ∈ r.headers.entries, IsHeaderName e.1
  values : ∀ e ∈ r.headers.entries, 0x0A ∉ e.2 ∧ Trimmed e.2
  length : ∀ value, r.headers.find? (bytes "content-length") = some value →
    value = decimal r.body.length
  -- a `size_t`
  bodySize : r.body.length < UInt64.size

namespace Request

variable {r : Request} {o : HeaderOrder}

/-- The added field has a name of its own. -/
theorem distinct_fullHead (r : Request) (o : HeaderOrder) :
    (((r.fullHead o).entries).map fun e => lower e.1).Nodup := by
  have hperm : ((r.fullHead o).entries).Perm (r.headers.entries ++ r.addedFields) :=
    (o.perm _).append_right _
  rw [(hperm.map _).nodup_iff, addedFields]
  split_ifs with hadd
  · exact Headers.nodup_concat ((Headers.contains_congr (by decide) _).trans hadd.2) _
  · rw [List.append_nil]
    exact r.headers.distinct

/-- The headers that are read. -/
def receivedHeaders (o : HeaderOrder) (r : Request) : Headers where
  entries := (r.fullHead o).entries
  distinct := r.distinct_fullHead o

theorem mem_fullHead_iff {e : Bytes × Bytes} :
    e ∈ (r.fullHead o).entries ↔ e ∈ r.headers.entries ∨ e ∈ r.addedFields := by
  rw [fullHead, List.mem_append, (o.perm _).mem_iff]

/-- The added field is like the others. -/
theorem addedFields_spec {e : Bytes × Bytes} (he : e ∈ r.addedFields) :
    IsHeaderName e.1 ∧ 0x0A ∉ e.2 ∧ Trimmed e.2 := by
  rw [addedFields] at he
  split_ifs at he with hadd
  · obtain rfl := List.mem_singleton.mp he
    have hnoSpace : ∀ c ∈ decimal r.body.length, isSpace c = false := fun c hc =>
      (isDigit_ne (isDigit_of_mem_decimal hc)).1
    have hnoLf : 0x0A ∉ decimal r.body.length := by
      intro hlf
      cases hnoSpace 0x0A hlf
    have hname : IsHeaderName (bytes "Content-Length") := by decide
    exact ⟨hname, hnoLf, Trimmed.of_noSpace hnoSpace⟩
  · cases he

namespace Sendable

theorem field (h : r.Sendable) {e : Bytes × Bytes} (he : e ∈ (r.fullHead o).entries) :
    IsHeaderName e.1 ∧ 0x0A ∉ e.2 ∧ Trimmed e.2 := by
  rcases mem_fullHead_iff.mp he with he | he
  · exact ⟨h.names e he, h.values e he⟩
  · exact addedFields_spec he

/-- The head is read back. -/
theorem parse (h : r.Sendable) : parseHttpRequest (r.fullHead o).text
    = requestOf (methodStr r.method) r.target r.version (r.receivedHeaders o) := by
  have htrim : (r.fullHead o).entries.map (fun e => (e.1, trim e.2)) = (r.fullHead o).entries := by
    calc (r.fullHead o).entries.map (fun e => (e.1, trim e.2))
        = (r.fullHead o).entries.map id := by
          refine List.map_congr_left fun e he => ?_
          rw [(h.field he).2.2.trim_eq]
          rfl
      _ = (r.fullHead o).entries := List.map_id _
  exact parseHttpRequest_text (isWord_methodStr r.method) h.target h.version
    (fun e he => (h.field he).1) (fun e he => (h.field he).2.1) htrim.symm

theorem findEnd (h : r.Sendable) :
    Chunks.findEnd crlfcrlf (r.fullHead o).text = some (r.fullHead o).text.length :=
  findEnd_text (isWord_methodStr r.method) h.target h.version
    (fun _ he => (h.field he).1) (fun _ he => (h.field he).2.1)

/-- The head announces the body: by its own header, by the one that is added, or by none if there
is no body. -/
theorem announced (h : r.Sendable) :
    (r.receivedHeaders o).contentLength.getD 0 = r.body.length := by
  by_cases hown : r.headers.contains (bytes "content-length") = true
  · obtain ⟨e, he, hname⟩ := List.any_eq_true.mp hown
    have hkey : lower e.1 = lower (bytes "content-length") := caseInsensitiveEqual_iff.mp hname
    have hvalue : e.2 = decimal r.body.length := h.length e.2 (Headers.find?_of_mem he hkey)
    rw [Headers.contentLength_of_mem h.bodySize (mem_fullHead_iff.mpr (Or.inl he)) hkey hvalue]
    rfl
  · rw [Bool.not_eq_true] at hown
    by_cases hbody : r.body = []
    · have hadded : r.addedFields = [] := if_neg fun hadd => hadd.1 hbody
      have hnone : (r.receivedHeaders o).contains (bytes "content-length") = false := by
        rw [Headers.contains, List.any_eq_false] at hown ⊢
        intro e he
        rcases mem_fullHead_iff.mp he with he | he
        · exact hown e he
        · rw [hadded] at he
          cases he
      rw [Headers.contentLength_eq_none hnone, hbody]
      rfl
    · have hadded : (bytes "Content-Length", decimal r.body.length) ∈ r.addedFields := by
        rw [addedFields, if_pos ⟨hbody, hown⟩]
        exact List.mem_singleton_self _
      have hkey : lower (bytes "Content-Length") = lower (bytes "content-length") := by decide
      rw [Headers.contentLength_of_mem h.bodySize (mem_fullHead_iff.mpr (Or.inr hadded)) hkey rfl]
      rfl

end Sendable

/-- The bytes of a request that can be read back. -/
def wireRequest (r : Request) (o : HeaderOrder) (h : r.Sendable) : WireRequest where
  head := (r.fullHead o).text
  body := r.body
  headEnds := h.findEnd
  bodyLength := by
    rw [h.parse]
    exact h.announced

end Request

/-- **Writing and reading a request**: `do_read` returns the request that `to_string` has written,
with the header that it has added, whatever follows. -/
theorem doRead_toStringFull (r : Request) (o : HeaderOrder) (y : Bytes) (socket : Socket)
    (hr : r.Sendable) (h : socket.unread = r.toStringFull o ++ y) :
    ∃ req rest, doRead socket = some (req, rest) ∧
      req.method = r.method ∧ req.target = r.target ∧ req.version = r.version ∧
      req.body = r.body ∧ req.headers.entries.Perm (r.headers.entries ++ r.addedFields) ∧
      (req.path, req.queryParams) = splitTarget r.target := by
  obtain ⟨rest, hread, -, -⟩ := doRead_spec (r.wireRequest o hr) h
  have hvalue : (r.wireRequest o hr).value
      = { requestOf (methodStr r.method) r.target r.version (r.receivedHeaders o) with
          body := r.body } := by
    rw [WireRequest.value]
    show { parseHttpRequest (r.fullHead o).text with body := r.body } = _
    rw [hr.parse]
  rw [hvalue] at hread
  refine ⟨_, rest, hread, methodEnum_methodStr r.method, rfl, rfl, rfl, ?_, rfl⟩
  exact (o.perm _).append_right _

/-- A form that has been posted. -/
def postForm : Request where
  method := .post
  version := bytes "HTTP/1.1"
  target := bytes "/form?a=1"
  headers := Headers.empty.set (bytes "Host") (bytes "localhost")
  body := bytes "x\r\n\r\ny"

theorem sendable_postForm : postForm.Sendable where
  target := by decide
  version := by decide
  names := by decide
  values := by decide
  length := by
    intro value hvalue
    have hnone : postForm.headers.find? (bytes "content-length") = none := by decide
    rw [hnone] at hvalue
    cases hvalue
  bodySize := by decide

/-- The last entry first. -/
def reverseOrder : HeaderOrder where
  order := List.reverse
  perm := List.reverse_perm

/-- Cut inside the empty line. -/
theorem doRead_toStringFull_postForm :
    ∃ req rest,
      doRead [(postForm.toStringFull reverseOrder).take 62,
        (postForm.toStringFull reverseOrder).drop 62] = some (req, rest) ∧
      req.method = postForm.method ∧ req.target = postForm.target ∧
      req.version = postForm.version ∧ req.body = postForm.body ∧
      req.headers.entries.Perm (postForm.headers.entries ++ postForm.addedFields) ∧
      (req.path, req.queryParams) = splitTarget postForm.target :=
  doRead_toStringFull postForm reverseOrder [] _ sendable_postForm (by decide)

end WebSocketsLib
