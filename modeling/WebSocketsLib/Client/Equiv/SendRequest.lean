import WebSocketsLib.Client.HttpClient
import WebSocketsLib.Server.Equiv.HeaderLookup
import WebSocketsLib.Server.Equiv.HttpSession

/-!
# What `send_request` sends

`HttpClient.received_request`: the server reads the method, the target and the body of the call, and
under each name the value that the caller has given last, or the default.
-/

namespace WebSocketsLib

/-! ### Headers that are set one after another -/

/-- A header that can be read back from a message whose body has the length `n`. -/
structure FieldFits (n : ℕ) (e : Bytes × Bytes) : Prop where
  name : IsHeaderName e.1
  noLf : 0x0A ∉ e.2
  trimmed : Trimmed e.2
  length : lower e.1 = lower (bytes "content-length") → e.2 = decimal n

namespace Headers

variable {h h' : Headers} {n : ℕ} {key value : Bytes}

/-- Headers that can be read back. -/
structure Fit (n : ℕ) (h : Headers) : Prop where
  field : ∀ e ∈ h.entries, IsHeaderName e.1 ∧ 0x0A ∉ e.2 ∧ Trimmed e.2
  length : ∀ value, h.find? (bytes "content-length") = some value → value = decimal n

theorem mem_set {e : Bytes × Bytes} (he : e ∈ (h.set key value).entries) :
    (∃ e' ∈ h.entries, e.1 = e'.1 ∧ (e.2 = e'.2 ∨ e.2 = value)) ∨ e = (key, value) := by
  unfold set at he
  split_ifs at he
  · obtain ⟨e', he', rfl⟩ := List.mem_map.mp he
    left
    refine ⟨e', he', ?_⟩
    split_ifs
    · exact ⟨rfl, Or.inr rfl⟩
    · exact ⟨rfl, Or.inl rfl⟩
  · rcases List.mem_append.mp he with hold | hnew
    · exact Or.inl ⟨e, hold, rfl, Or.inl rfl⟩
    · exact Or.inr (List.mem_singleton.mp hnew)

theorem Fit.set (hfit : h.Fit n) (hfield : FieldFits n (key, value)) :
    (h.set key value).Fit n where
  field := by
    intro e he
    rcases mem_set he with ⟨e', he', hname, hold | hnew⟩ | rfl
    · rw [hname, hold]
      exact hfit.field e' he'
    · rw [hname, hnew]
      exact ⟨(hfit.field e' he').1, hfield.noLf, hfield.trimmed⟩
    · exact ⟨hfield.name, hfield.noLf, hfield.trimmed⟩
  length := by
    intro v hv
    rw [find?_set] at hv
    split_ifs at hv with hname
    · obtain rfl := Option.some.inj hv
      exact hfield.length (caseInsensitiveEqual_iff.mp hname)
    · exact hfit.length v hv

theorem fit_empty (n : ℕ) : empty.Fit n where
  field _ he := absurd he List.not_mem_nil
  length _ hno := by cases hno

theorem Fit.foldl_set (hfit : h.Fit n) {entries : List (Bytes × Bytes)}
    (hentries : ∀ e ∈ entries, FieldFits n e) :
    (entries.foldl (fun h kv => h.set kv.1 kv.2) h).Fit n := by
  induction entries generalizing h with
  | nil => exact hfit
  | cons e entries ih =>
    obtain ⟨he, hrest⟩ := List.forall_mem_cons.mp hentries
    exact ih (hfit.set he) hrest

/-- The value that is given last under a name. -/
def lastGiven (entries : List (Bytes × Bytes)) (name : Bytes) : Option Bytes :=
  (entries.reverse.find? fun e => caseInsensitiveEqual e.1 name).map Prod.snd

/-- **The value that is given last** counts. -/
theorem find?_foldl_set (entries : List (Bytes × Bytes)) (h : Headers) (name : Bytes) :
    (entries.foldl (fun h kv => h.set kv.1 kv.2) h).find? name
      = (lastGiven entries name).or (h.find? name) := by
  induction entries using List.reverseRecOn with
  | nil => rfl
  | append_singleton entries e ih =>
    rw [List.foldl_concat, find?_set, ih, lastGiven, lastGiven, List.reverse_concat,
      List.find?_cons]
    split_ifs with hname
    · rw [hname]
      rfl
    · have hother : caseInsensitiveEqual e.1 name = false := Bool.eq_false_iff.mpr hname
      rw [hother]

/-- The order of the entries does not matter. -/
theorem find?_perm (hperm : h.entries.Perm h'.entries) (name : Bytes) :
    h.find? name = h'.find? name := by
  cases hfind : h'.find? name with
  | some v =>
    obtain ⟨e, he, rfl⟩ := Option.map_eq_some_iff.mp hfind
    have hname := List.find?_some he
    exact find?_of_mem (hperm.mem_iff.mpr (List.mem_of_find?_eq_some he))
      (caseInsensitiveEqual_iff.mp hname)
  | none =>
    apply find?_eq_none
    have hno : h'.contains name = false := by
      rw [contains_eq_isSome_find?, hfind]
      rfl
    unfold contains at hno ⊢
    rw [List.any_eq_false] at hno ⊢
    exact fun e he => hno e (hperm.mem_iff.mp he)

end Headers

/-! ### The request of a call -/

namespace HttpClient

open Headers

variable {host : Bytes} {k : Call}

/-- What the text of a request can carry. -/
structure Call.WellFormed (host : Bytes) (k : Call) : Prop where
  target : IsWord k.target
  hostNoLf : 0x0A ∉ host
  hostTrimmed : Trimmed host
  headers : ∀ e ∈ k.headers, FieldFits k.body.length e
  -- a `size_t`
  bodySize : k.body.length < UInt64.size

theorem fit_defaultHeaders (hnoLf : 0x0A ∉ host) (htrimmed : Trimmed host) (method : Method)
    (body : Bytes) : (defaultHeaders host method body).Fit body.length := by
  have hhost : FieldFits body.length (bytes "Host", host) :=
    ⟨(by decide : IsHeaderName (bytes "Host")), hnoLf, htrimmed,
      fun hno => absurd hno (by decide : lower (bytes "Host") ≠ lower (bytes "content-length"))⟩
  have hbasic : ((Headers.empty.set (bytes "Host") host).set (bytes "Connection")
      (bytes "close")).Fit body.length :=
    ((fit_empty _).set hhost).set
      ⟨by decide, by decide, by decide, fun hno => absurd hno (by decide)⟩
  unfold defaultHeaders
  dsimp only
  split_ifs
  · have hnoSpace : ∀ c ∈ decimal body.length, isSpace c = false := fun c hc =>
      (isDigit_ne (isDigit_of_mem_decimal hc)).1
    have hlf : 0x0A ∉ decimal body.length := by
      intro hlf
      have hno := hnoSpace 0x0A hlf
      cases hno
    exact (hbasic.set ⟨(by decide : IsHeaderName (bytes "Content-Length")), hlf,
        Trimmed.of_noSpace hnoSpace, fun _ => rfl⟩).set
      ⟨by decide, by decide, by decide, fun hno => absurd hno (by decide)⟩
  · exact hbasic

/-- The request of a call can be read back. -/
theorem sendable_request (h : k.WellFormed host) : (k.request host).Sendable := by
  have hfit : (k.request host).headers.Fit k.body.length :=
    (fit_defaultHeaders h.hostNoLf h.hostTrimmed k.method k.body).foldl_set h.headers
  exact {
    target := h.target
    version := (by decide : IsWord (bytes "HTTP/1.1"))
    names := fun e he => (hfit.field e he).1
    values := fun e he => (hfit.field e he).2
    length := hfit.length
    bodySize := h.bodySize }

/-- No header is added to it. -/
theorem addedFields_request (host : Bytes) (k : Call) : (k.request host).addedFields = [] := by
  apply if_neg
  rintro ⟨hbody, hno⟩
  cases k with
  | get target headers => exact hbody rfl
  | post target body headers =>
    have hfind : ((Call.post target body headers).request host).headers.find?
        (bytes "content-length") = none := find?_eq_none hno
    have hset : ((Call.post target body headers).request host).headers.find?
        (bytes "content-length") = (lastGiven headers (bytes "content-length")).or
          ((defaultHeaders host .post body).find? (bytes "content-length")) :=
      find?_foldl_set headers _ _
    rw [hfind] at hset
    have hdefault := (Option.or_eq_none_iff.mp hset.symm).2
    unfold defaultHeaders at hdefault
    rw [if_pos rfl, find?_set, if_neg (by decide), find?_set, if_pos (by decide)] at hdefault
    cases hdefault

/-- **What the server reads under each name.** -/
theorem find?_of_receivedAs {req : Request} (h : ReceivedAs (k.request host) req) (name : Bytes) :
    req.headers.find? name = (lastGiven k.headers name).or
      ((defaultHeaders host k.method k.body).find? name) := by
  have hperm := h.headers
  rw [addedFields_request, List.append_nil] at hperm
  rw [find?_perm hperm]
  exact find?_foldl_set k.headers _ name

/-- **What the server reads of a call**: its method, target and body, and under each name the value
that the caller has given last, or the default; in whatever chunks the request arrives. -/
theorem received_request (host : Bytes) (k : Call) (hk : k.WellFormed host) (o : HeaderOrder)
    (socket : Socket) (h : socket.unread = (k.request host).toStringFull o) :
    ∃ req rest, doRead socket = some (req, rest) ∧ req.method = k.method ∧
      req.target = k.target ∧ (req.path, req.queryParams) = splitTarget k.target ∧
      req.body = k.body ∧
      ∀ name, req.headers.find? name = (lastGiven k.headers name).or
        ((defaultHeaders host k.method k.body).find? name) := by
  obtain ⟨req, rest, hread, hreceived, -⟩ := doRead_whole (sendable_request hk) h
  exact ⟨req, rest, hread, hreceived.method, hreceived.target, hreceived.path, hreceived.body,
    find?_of_receivedAs hreceived⟩

/-- A call that replaces one of the defaults. -/
def postForm : Call :=
  .post (bytes "/form?a=1") (bytes "x\r\n\r\ny") [(bytes "connection", bytes "keep-alive")]

theorem wellFormed_postForm : postForm.WellFormed (bytes "localhost") where
  target := (by decide : IsWord (bytes "/form?a=1"))
  hostNoLf := by decide
  hostTrimmed := by decide
  headers := List.forall_mem_singleton.mpr
    ⟨by decide, by decide, by decide, fun hno => absurd hno (by decide)⟩
  bodySize := by decide

/-- Cut inside the empty line. -/
theorem received_request_postForm :
    ∃ req rest, doRead [((postForm.request (bytes "localhost")).toStringFull reverseOrder).take 127,
        ((postForm.request (bytes "localhost")).toStringFull reverseOrder).drop 127]
          = some (req, rest) ∧ req.method = postForm.method ∧
      req.target = postForm.target ∧ (req.path, req.queryParams) = splitTarget postForm.target ∧
      req.body = postForm.body ∧
      ∀ name, req.headers.find? name = (lastGiven postForm.headers name).or
        ((defaultHeaders (bytes "localhost") postForm.method postForm.body).find? name) :=
  received_request (bytes "localhost") postForm wellFormed_postForm reverseOrder _ (by
    simp only [Socket.unread, List.flatten_cons, List.flatten_nil, List.append_nil,
      List.take_append_drop])

end HttpClient

end WebSocketsLib
