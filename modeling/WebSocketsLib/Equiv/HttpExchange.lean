import WebSocketsLib.Client.Equiv.HttpClient
import WebSocketsLib.Client.Equiv.SendRequest
import WebSocketsLib.HttpExchange
import WebSocketsLib.Server.Equiv.DoWrite

/-!
# What the calls of the HTTP client return

`HttpExchange.calls_return`: only the first call sends a request, and returns what the server
answers to it, without the empty line behind the headers; every later call returns the empty string.

`HttpExchange.calls_progress`: every call returns, unless it asks the server to keep the connection.
-/

namespace WebSocketsLib

open Runs Chunks HttpClient

/-! ### `read_response` -/

/-- The text of a head ends with an empty line. -/
theorem crlfcrlf_infix_text (h : Head) (body : Bytes) : crlfcrlf <:+: h.text ++ body := by
  have hends : ∃ front, h.startLine ++ crlf ++ h.entries.flatMap headerLine = front ++ crlf := by
    induction h.entries using List.reverseRecOn with
    | nil => exact ⟨h.startLine, List.append_nil _⟩
    | append_singleton entries e _ =>
      refine ⟨h.startLine ++ crlf ++ entries.flatMap headerLine ++ (e.1 ++ bytes ": " ++ e.2), ?_⟩
      rw [List.flatMap_append, List.flatMap_singleton, headerLine]
      simp only [List.append_assoc]
  obtain ⟨front, hfront⟩ := hends
  refine ⟨front, body, ?_⟩
  rw [Head.text, hfront]
  simp [crlfcrlf, crlf]

/-- **`read_response`** reads the whole stream, however it ends and in whatever chunks it comes. -/
theorem readResponse_of_infix (last : StreamEnd) {s : Bytes} (h : crlfcrlf <:+: s)
    {socket : Socket} (hsocket : socket.unread = s) :
    readResponse last socket = withoutCrLine s := by
  have hstream : crlfcrlf <:+: [] ++ socket.flatten := by
    rw [List.nil_append, ← Socket.unread, hsocket]
    exact h
  obtain ⟨n, buf, rest, hread, hsplit, hdelim⟩ := readUntil_of_infix hstream
  obtain ⟨lines, leftover, hline⟩ := exists_crLine hdelim
  have hs : s = buf ++ Socket.unread rest := by
    rw [← hsocket]
    exact hsplit.symm
  unfold readResponse
  rw [hread]
  dsimp only
  rw [readHeaderLines_eq hline, readBody_eq, hs, (hline.append _).withoutCrLine_eq,
    List.append_assoc]

/-! ### The last answer of a session -/

/-- The text of a response after which the session ends. -/
def closingText (o : HeaderOrder) (resp : Response) : Bytes :=
  let r := resp.setHeader (bytes "Connection") (bytes "close")
  (prepareHeaders r r.body.length).toStringHeader o ++ r.body

/-- An answer that is written completely, after which the session ends. -/
theorem served_of_written {ω : Type} {cfg : SessionConfig} {rt : Routes ω} {w : Surroundings ω}
    {req : Request} {resp : Response} (hupgrade : req.isWsUpgrade = false)
    (hresp : rt.handleRequest w.world w.fs req = some resp)
    (hwritten : ∀ value, (doWrite cfg.toBuild cfg.socketType w.os
      (resp.setHeader (bytes "Connection") value)).result = some ())
    (hended : (HttpSession.served cfg rt w req).result ≠ some true) :
    (HttpSession.served cfg rt w req).out = (doWrite cfg.toBuild cfg.socketType w.os
      (resp.setHeader (bytes "Connection") (bytes "close"))).out := by
  have hserve : HttpSession.served cfg rt w req = (do
      doWrite cfg.toBuild cfg.socketType w.os (resp.setHeader (bytes "Connection")
        (if Server.keepAlive req then bytes "keep-alive" else bytes "close"))
      pure (Server.keepAlive req)) := by
    unfold HttpSession.served serve
    rw [show (rt.exchange w req).req = req from rfl, hupgrade, if_neg Bool.false_ne_true,
      show (rt.exchange w req).resp = some resp from hresp]
    rfl
  rw [hserve] at hended ⊢
  rw [Output.bind_result, hwritten] at hended
  have hclose : Server.keepAlive req = false := by
    by_contra hkeep
    rw [Bool.not_eq_false] at hkeep
    exact hended (congrArg some hkeep)
  rw [Output.bind_out, hwritten, hclose]
  exact List.append_nil _

/-- A regular response. -/
theorem served_regular {ω : Type} {cfg : SessionConfig} {rt : Routes ω} {w : Surroundings ω}
    {req : Request} {resp : Response} (hupgrade : req.isWsUpgrade = false)
    (hresp : rt.handleRequest w.world w.fs req = some resp) (hregular : resp.sendfilePath = [])
    (hwrite : w.os.write = none)
    (hended : (HttpSession.served cfg rt w req).result ≠ some true) :
    (HttpSession.served cfg rt w req).out.flatMap Write.sent = closingText cfg.order resp := by
  have hdoWrite (value : Bytes) :
      doWrite cfg.toBuild cfg.socketType w.os (resp.setHeader (bytes "Connection") value)
        = writeRegularResponse cfg.toBuild w.os (resp.setHeader (bytes "Connection") value) :=
    if_neg fun hno => hno hregular
  have hwritten (value : Bytes) : (doWrite cfg.toBuild cfg.socketType w.os
      (resp.setHeader (bytes "Connection") value)).result = some () := by
    rw [hdoWrite]
    unfold writeRegularResponse
    rw [hwrite]
    dsimp only
    split_ifs
    · rfl
    · rfl
  rw [served_of_written hupgrade hresp hwritten hended, hdoWrite,
    sent_writeRegularResponse cfg.toBuild hwrite]
  rfl

namespace HttpSession

variable {ω : Type} {cfg : SessionConfig} {rt : Routes ω} {s s' : HttpSession}

/-! ### What the steps of a session leave alone -/

/-- Only the peer writes requests. -/
theorem sent_of_step {e : Event ω} (hno : ∀ r o, e ≠ .send r o)
    (hstep : step cfg rt s e = some s') : s'.sent = s.sent := by
  cases e with
  | send r o => exact absurd rfl (hno r o)
  | arrive n =>
    unfold step at hstep
    dsimp only at hstep
    split_ifs at hstep with hn
    obtain rfl := Option.some.inj hstep
    rfl
  | pass w =>
    obtain ⟨p, -, hstep⟩ := Option.bind_eq_some_iff.mp hstep
    obtain ⟨log, -, hstep⟩ := Option.bind_eq_some_iff.mp hstep
    obtain rfl := Option.some.inj hstep
    rfl

/-- What has been written stays, and a session that has ended writes nothing. -/
theorem log_of_step {e : Event ω} (hstep : step cfg rt s e = some s') :
    s.log.bytes <+: s'.log.bytes ∧ (s.log.ended = true → s'.log = s.log) := by
  cases e with
  | send r o =>
    unfold step at hstep
    dsimp only at hstep
    split_ifs at hstep with hguard
    obtain rfl := Option.some.inj hstep
    exact ⟨List.prefix_rfl, fun _ => rfl⟩
  | arrive n =>
    unfold step at hstep
    dsimp only at hstep
    split_ifs at hstep with hn
    obtain rfl := Option.some.inj hstep
    exact ⟨List.prefix_rfl, fun _ => rfl⟩
  | pass w =>
    obtain ⟨p, -, hstep⟩ := Option.bind_eq_some_iff.mp hstep
    obtain ⟨log, hlog, hstep⟩ := Option.bind_eq_some_iff.mp hstep
    obtain rfl := Option.some.inj hstep
    unfold SessionLog.step at hlog
    split_ifs at hlog with hended
    obtain rfl := Option.some.inj hlog
    refine ⟨?_, fun h => absurd h hended⟩
    unfold SessionLog.bytes
    rw [List.flatten_append, List.flatMap_append]
    exact List.prefix_append _ _

/-- **A session with one request** has read it in its only pass, or has read nothing. -/
theorem Inv.one {ws : List (Surroundings ω)} {reqs : List Request} (h : Inv cfg rt s ws reqs)
    {r : Request} (hsent : s.sent = [r]) :
    reqs = [] ∨ ∃ w req, ws = [w] ∧ reqs = [req] ∧ ReceivedAs r req := by
  obtain ⟨hreceived, -⟩ := h.received
  rw [hsent] at hreceived
  cases reqs with
  | nil => exact Or.inl rfl
  | cons req reqs =>
    right
    rw [List.length_cons, List.take_succ_cons, List.take_nil] at hreceived
    obtain ⟨hone, hrest⟩ := List.forall₂_cons.mp hreceived
    obtain rfl := List.forall₂_nil_left_iff.mp hrest
    obtain ⟨w, rfl⟩ : ∃ w, ws = [w] := List.length_eq_one_iff.mp h.logged.length.symm
    exact ⟨w, req, rfl, rfl, hone⟩

/-- What it has written, when it has ended. -/
theorem Inv.single {ws : List (Surroundings ω)} {reqs : List Request}
    (h : Inv cfg rt s ws reqs) {r : Request} (hsent : s.sent = [r]) (hended : s.log.ended = true) :
    ∃ w req, ws = [w] ∧ ReceivedAs r req ∧ (served cfg rt w req).result ≠ some true ∧
      s.log.bytes = (served cfg rt w req).out.flatMap Write.sent := by
  obtain ⟨-, hserved, hiff⟩ := h.logged
  obtain ⟨p, hmem, hresult⟩ := hiff.mp hended
  rcases h.one hsent with rfl | ⟨w, req, rfl, rfl, hreceived⟩
  · rw [List.zip_nil_right] at hmem
    exact absurd hmem List.not_mem_nil
  · obtain rfl := List.mem_singleton.mp hmem
    refine ⟨w, req, rfl, hreceived, hresult, ?_⟩
    unfold SessionLog.bytes
    rw [hserved]
    exact congrArg (List.flatMap Write.sent) (List.append_nil _)

end HttpSession

namespace HttpExchange

variable {ω : Type} {cfg : SessionConfig} {rt : Routes ω} {host : Bytes} {s s' : HttpExchange}
  {es : List (Event ω)}

/-! ### The invariant -/

/-- How far the calls have come. -/
inductive Phase (s : HttpExchange) (ks : List HttpClient.Call) : Prop
  | fresh (hcalls : ks = []) (hreading : s.reading = false) (hstopped : s.stopped = false)
      (hresults : s.results = [])
  | reading (k : HttpClient.Call) (hcalls : ks = [k]) (hreading : s.reading = true)
      (hstopped : s.stopped = false) (hresults : s.results = [])
  | stopped (k : HttpClient.Call) (later : List HttpClient.Call) (hcalls : ks = k :: later)
      (chunks : Socket) (hreading : s.reading = false) (hstopped : s.stopped = true)
      (hended : s.server.log.ended = true) (hchunks : chunks.unread = s.server.log.bytes)
      (hresults : s.results = readResponse .eof chunks :: List.replicate later.length [])

/-- **Both ends after the events `es`.** -/
structure Inv (cfg : SessionConfig) (rt : Routes ω) (host : Bytes) (es : List (Event ω))
    (s : HttpExchange) : Prop where
  hostEq : s.host = host
  server : ∃ ws reqs, HttpSession.Inv cfg rt s.server ws reqs ∧ ∀ w ∈ ws, .pass w ∈ es
  sent : s.server.sent = ((calls es).take 1).map (HttpClient.Call.request host)
  arrived : s.arrived.unread <+: s.server.log.bytes
  phase : Phase s (calls es)

theorem inv_start (cfg : SessionConfig) (rt : Routes ω) (host : Bytes) :
    Inv cfg rt host [] { host } where
  hostEq := rfl
  server := ⟨[], [], HttpSession.inv_start cfg rt, fun _ hw => absurd hw List.not_mem_nil⟩
  sent := rfl
  arrived := List.nil_prefix
  phase := .fresh rfl rfl rfl rfl

theorem calls_concat (es : List (Event ω)) (e : Event ω) :
    calls (es ++ [e]) = calls es ++ calls [e] :=
  List.filterMap_append

/-- The phase only depends on what the server has written. -/
theorem Phase.server {ks : List HttpClient.Call} (h : Phase s ks) {server : HttpSession}
    (hlog : s.server.log.ended = true → server.log = s.server.log) :
    Phase { s with server } ks := by
  cases h with
  | fresh hcalls hreading hstopped hresults => exact .fresh hcalls hreading hstopped hresults
  | reading k hcalls hreading hstopped hresults =>
    exact .reading k hcalls hreading hstopped hresults
  | stopped k later hcalls chunks hreading hstopped hended hchunks hresults =>
    have hsame := hlog hended
    refine .stopped k later hcalls chunks hreading hstopped ?_ ?_ hresults
    · rw [← hended, ← hsame]
    · rw [hchunks, ← hsame]

/-- Nor does it depend on what has arrived. -/
theorem Phase.arrive {ks : List HttpClient.Call} (h : Phase s ks) (arrived : Socket) :
    Phase { s with arrived } ks := by
  cases h with
  | fresh hcalls hreading hstopped hresults => exact .fresh hcalls hreading hstopped hresults
  | reading k hcalls hreading hstopped hresults =>
    exact .reading k hcalls hreading hstopped hresults
  | stopped k later hcalls chunks hreading hstopped hended hchunks hresults =>
    exact .stopped k later hcalls chunks hreading hstopped hended hchunks hresults

/-- **A step of the server.** -/
theorem Inv.serverStep (h : Inv cfg rt host es s) {e : Event ω} (hcalls : calls [e] = [])
    {e' : HttpSession.Event ω} (hno : ∀ r o, e' ≠ .send r o)
    (hpass : ∀ w ∈ HttpSession.passes [e'], e = .pass w) {server : HttpSession}
    (hstep : s.server.step cfg rt e' = some server) :
    Inv cfg rt host (es ++ [e]) { s with server } := by
  have hsame : calls (es ++ [e]) = calls es := by
    rw [calls_concat, hcalls, List.append_nil]
  obtain ⟨ws, reqs, hserver, hws⟩ := h.server
  have hlog := HttpSession.log_of_step hstep
  obtain ⟨reqs', hserver'⟩ := HttpSession.inv_step hserver (fun r o he => absurd he (hno r o)) hstep
  constructor
  · exact h.hostEq
  · refine ⟨_, reqs', hserver', fun w hw => ?_⟩
    rcases List.mem_append.mp hw with hold | hnew
    · exact List.mem_append_left _ (hws w hold)
    · exact List.mem_append_right _ (List.mem_singleton.mpr (hpass w hnew).symm)
  · rw [hsame]
    exact (HttpSession.sent_of_step hno hstep).trans h.sent
  · exact h.arrived.trans hlog.1
  · rw [hsame]
    exact h.phase.server hlog.2

/-- A call begins. -/
theorem Inv.call (h : Inv cfg rt host es s) {k : HttpClient.Call} {o : HeaderOrder}
    (hk : k.WellFormed host) (hstep : s.step cfg rt (.call k o) = some s') :
    Inv cfg rt host (es ++ [.call k o]) s' := by
  have hmore : calls (es ++ [.call k o]) = calls es ++ [k] := calls_concat es _
  obtain ⟨ws, reqs, hserver, hws⟩ := h.server
  have hws' : ∀ w ∈ ws, Event.pass w ∈ es ++ [.call k o] := fun w hw =>
    List.mem_append_left _ (hws w hw)
  have hsent := h.sent
  unfold step at hstep
  dsimp only at hstep
  cases h.phase with
  | fresh hcalls hreading hstopped hresults =>
    rw [if_neg (Bool.eq_false_iff.mp hreading), if_neg (Bool.eq_false_iff.mp hstopped)] at hstep
    obtain ⟨server, hserverStep, rfl⟩ := Option.map_eq_some_iff.mp hstep
    have hlog := HttpSession.log_of_step hserverStep
    obtain ⟨reqs', hserver'⟩ := HttpSession.inv_step hserver (e := .send (k.request s.host) o)
      (fun r o' he => by
        obtain ⟨rfl, -⟩ := HttpSession.Event.send.inj he
        rw [h.hostEq]
        exact sendable_request hk) hserverStep
    constructor
    · exact h.hostEq
    · refine ⟨ws, reqs', ?_, hws'⟩
      rw [← List.append_nil ws]
      exact hserver'
    · unfold HttpSession.step at hserverStep
      dsimp only at hserverStep
      split_ifs at hserverStep with hguard
      obtain rfl := Option.some.inj hserverStep
      rw [hcalls] at hsent
      rw [hmore, hcalls]
      show s.server.sent ++ [k.request s.host] = [k.request host]
      rw [hsent, h.hostEq]
      rfl
    · exact h.arrived.trans hlog.1
    · rw [hmore, hcalls]
      exact .reading k rfl rfl hstopped hresults
  | reading k' hcalls hreading hstopped hresults =>
    rw [hreading, if_pos rfl] at hstep
    cases hstep
  | stopped k' later hcalls chunks hreading hstopped hended hchunks hresults =>
    rw [if_neg (Bool.eq_false_iff.mp hreading), if_pos hstopped] at hstep
    obtain rfl := Option.some.inj hstep
    constructor
    · exact h.hostEq
    · exact ⟨ws, reqs, hserver, hws'⟩
    · rw [hcalls] at hsent
      rw [hmore, hcalls]
      exact hsent
    · exact h.arrived
    · rw [hmore, hcalls]
      refine .stopped k' (later ++ [k]) rfl chunks hreading hstopped hended hchunks ?_
      show s.results ++ [[]] = _
      rw [hresults, List.length_append, List.length_singleton, List.replicate_succ']
      rfl

/-- Bytes arrive at the client. -/
theorem Inv.toClient (h : Inv cfg rt host es s) {n : ℕ}
    (hstep : s.step cfg rt (.toClient n) = some s') :
    Inv cfg rt host (es ++ [.toClient n]) s' := by
  have hsame : calls (es ++ [.toClient n]) = calls es := by
    rw [calls_concat]
    exact List.append_nil _
  obtain ⟨ws, reqs, hserver, hws⟩ := h.server
  unfold step at hstep
  dsimp only at hstep
  split_ifs at hstep with hn
  obtain rfl := Option.some.inj hstep
  constructor
  · exact h.hostEq
  · exact ⟨ws, reqs, hserver, fun w hw => List.mem_append_left _ (hws w hw)⟩
  · rw [hsame]
    exact h.sent
  · have hall := List.prefix_iff_eq_append.mp h.arrived
    show Socket.unread (s.arrived ++ [_]) <+: s.server.log.bytes
    unfold Socket.unread at hall ⊢
    rw [List.flatten_append, List.flatten_singleton]
    calc
      _ <+: s.arrived.flatten ++ s.server.log.bytes.drop s.arrived.flatten.length :=
        (List.prefix_append_right_inj _).mpr (List.take_prefix _ _)
      _ = s.server.log.bytes := hall
  · rw [hsame]
    exact h.phase.arrive _

/-- A call returns. -/
theorem Inv.returns (h : Inv cfg rt host es s) (hstep : s.step cfg rt .returns = some s') :
    Inv cfg rt host (es ++ [.returns]) s' := by
  have hsame : calls (es ++ [.returns]) = calls es := by
    rw [calls_concat]
    exact List.append_nil _
  obtain ⟨ws, reqs, hserver, hws⟩ := h.server
  unfold step at hstep
  dsimp only at hstep
  split_ifs at hstep with hdone
  obtain rfl := Option.some.inj hstep
  obtain ⟨hwaiting, hended, harrived⟩ := hdone
  constructor
  · exact h.hostEq
  · exact ⟨ws, reqs, hserver, fun w hw => List.mem_append_left _ (hws w hw)⟩
  · rw [hsame]
    exact h.sent
  · exact h.arrived
  · rw [hsame]
    cases h.phase with
    | fresh hcalls hreading hstopped hresults =>
      rw [hreading] at hwaiting
      cases hwaiting
    | reading k hcalls hreading hstopped hresults =>
      refine .stopped k [] hcalls s.arrived rfl rfl hended harrived ?_
      show s.results ++ [_] = _
      rw [hresults]
      rfl
    | stopped k later hcalls chunks hreading hstopped hended hchunks hresults =>
      rw [hreading] at hwaiting
      cases hwaiting

/-- **Every step.** -/
theorem inv_step (h : Inv cfg rt host es s) {e : Event ω}
    (hcall : ∀ k o, e = .call k o → k.WellFormed host) (hstep : s.step cfg rt e = some s') :
    Inv cfg rt host (es ++ [e]) s' := by
  cases e with
  | call k o => exact h.call (hcall k o rfl) hstep
  | toServer n =>
    obtain ⟨server, hserver, rfl⟩ := Option.map_eq_some_iff.mp hstep
    refine h.serverStep rfl (fun r o hno => ?_) (fun w hw => ?_) hserver
    · cases hno
    · cases hw
  | pass w =>
    obtain ⟨server, hserver, rfl⟩ := Option.map_eq_some_iff.mp hstep
    refine h.serverStep rfl (fun r o hno => ?_) (fun w' hw => ?_) hserver
    · cases hno
    · rw [List.mem_singleton.mp hw]
  | toClient n => exact h.toClient hstep
  | returns => exact h.returns hstep

/-- **Every run.** -/
theorem inv_run {done : List (Event ω)} (h : Inv cfg rt host done s)
    (hcall : ∀ k o, .call k o ∈ es → k.WellFormed host)
    (hrun : run (step cfg rt) s es = some s') : Inv cfg rt host (done ++ es) s' := by
  induction es generalizing s done with
  | nil =>
    obtain rfl : s = s' := Option.some.inj hrun
    rw [List.append_nil]
    exact h
  | cons e es ih =>
    obtain ⟨s₁, h₁, hrun⟩ := run_cons_eq_some hrun
    have hone : ∀ k o, e = .call k o → k.WellFormed host := by
      rintro k o rfl
      exact hcall k o List.mem_cons_self
    have hinv := ih (inv_step h hone h₁) (fun k o hmem => hcall k o (List.mem_cons_of_mem e hmem))
      hrun
    rw [List.append_assoc] at hinv
    exact hinv

/-! ### What the calls return -/

/-- A call that can be read back and that asks for no upgrade. -/
structure Plain (host : Bytes) (k : HttpClient.Call) : Prop extends k.WellFormed host where
  noKey : Headers.lastGiven k.headers (bytes "Sec-WebSocket-Key") = none

theorem isWsUpgrade_of_receivedAs {k : HttpClient.Call} {req : Request}
    (h : ReceivedAs (k.request host) req) (hk : Plain host k) : req.isWsUpgrade = false := by
  have hdefault : (defaultHeaders host k.method k.body).find? (bytes "Sec-WebSocket-Key")
      = none := by
    unfold defaultHeaders
    dsimp only
    split_ifs
    · rw [Headers.find?_set, if_neg (by decide), Headers.find?_set, if_neg (by decide),
        Headers.find?_set, if_neg (by decide), Headers.find?_set, if_neg (by decide)]
      rfl
    · rw [Headers.find?_set, if_neg (by decide), Headers.find?_set, if_neg (by decide)]
      rfl
  have hfind := find?_of_receivedAs h (bytes "Sec-WebSocket-Key")
  rw [hk.noKey, hdefault] at hfind
  have hno : req.headers.contains (bytes "Sec-WebSocket-Key") = false := by
    rw [contains_eq_isSome_find?, hfind]
    rfl
  unfold Request.isWsUpgrade
  rw [hno, Bool.and_false]

/-- What the answer of the server is, and what the client makes of it. -/
structure Answer (cfg : SessionConfig) (rt : Routes ω) (w : Surroundings ω) (req : Request)
    (result : Bytes) : Prop where
  last : (HttpSession.served cfg rt w req).result ≠ some true
  headed : crlfcrlf <:+: (HttpSession.served cfg rt w req).out.flatMap Write.sent →
    result = withoutCrLine ((HttpSession.served cfg rt w req).out.flatMap Write.sent)
  regular : ∀ resp, rt.handleRequest w.world w.fs req = some resp → resp.sendfilePath = [] →
    w.os.write = none → result = withoutCrLine (closingText cfg.order resp)

/-- **What the calls return**: only the first one sends its request, and returns what the server
answers to it; each of the others returns the empty string. -/
structure Returned (cfg : SessionConfig) (rt : Routes ω) (host : Bytes) (es : List (Event ω))
    (s : HttpExchange) : Prop where
  sent : s.server.sent = ((calls es).take 1).map (HttpClient.Call.request host)
  length : s.results.length + s.reading.toNat = (calls es).length
  later : ∀ result ∈ s.results.tail, result = []
  first : ∀ result, s.results.head? = some result → ∃ k req w, (calls es).head? = some k ∧
    ReceivedAs (k.request host) req ∧ .pass w ∈ es ∧ Answer cfg rt w req result
  next : s.reading = false → ∀ k o, s.step cfg rt (.call k o) ≠ none

theorem Inv.answer (h : Inv cfg rt host es s) {k : HttpClient.Call} {later : List HttpClient.Call}
    (hk : Plain host k) (hcalls : calls es = k :: later) (hended : s.server.log.ended = true)
    {chunks : Socket} (hchunks : chunks.unread = s.server.log.bytes) :
    ∃ req w, ReceivedAs (k.request host) req ∧ .pass w ∈ es ∧
      Answer cfg rt w req (readResponse .eof chunks) := by
  obtain ⟨ws, reqs, hserver, hws⟩ := h.server
  have hsent : s.server.sent = [k.request host] := by
    rw [h.sent, hcalls]
    rfl
  obtain ⟨w, req, rfl, hreceived, hlast, hbytes⟩ := hserver.single hsent hended
  rw [hbytes] at hchunks
  refine ⟨req, w, hreceived, hws w (List.mem_singleton_self w), hlast, ?_, ?_⟩
  · intro hheaded
    exact readResponse_of_infix .eof hheaded hchunks
  · intro resp hresp hregular hwrite
    have hupgrade := isWsUpgrade_of_receivedAs hreceived hk
    rw [served_regular hupgrade hresp hregular hwrite hlast] at hchunks
    refine readResponse_of_infix .eof ?_ hchunks
    exact crlfcrlf_infix_text _ _

/-- A call can begin when there is none. -/
theorem Inv.call_ne_none (h : Inv cfg rt host es s) (hreading : s.reading = false)
    (k : HttpClient.Call) (o : HeaderOrder) : s.step cfg rt (.call k o) ≠ none := by
  unfold step
  dsimp only
  rw [if_neg (Bool.eq_false_iff.mp hreading)]
  cases h.phase with
  | fresh hcalls _ hstopped hresults =>
    obtain ⟨ws, reqs, hserver, -⟩ := h.server
    have hsent : s.server.sent = [] := by
      rw [h.sent, hcalls]
      rfl
    -- nothing has been sent, so nothing has been answered
    have hreqs : reqs.length = 0 := by
      have hreceived := hserver.received.1
      rw [hsent, List.take_nil] at hreceived
      exact hreceived.length_eq.symm
    have hguard : s.server.sent.length = s.server.log.served.length := by
      rw [hserver.logged.length_served, hreqs, hsent]
      rfl
    rw [if_neg (Bool.eq_false_iff.mp hstopped), HttpSession.step, if_pos hguard]
    exact Option.some_ne_none _
  | reading k' hcalls hreading' hstopped hresults =>
    rw [hreading] at hreading'
    cases hreading'
  | stopped k' later hcalls chunks _ hstopped hended hchunks hresults =>
    rw [if_pos hstopped]
    exact Option.some_ne_none _

theorem Inv.length (h : Inv cfg rt host es s) :
    s.results.length + s.reading.toNat = (calls es).length := by
  cases h.phase with
  | fresh hcalls hreading hstopped hresults =>
    rw [hcalls, hresults, hreading]
    rfl
  | reading k hcalls hreading hstopped hresults =>
    rw [hcalls, hresults, hreading]
    rfl
  | stopped k later hcalls chunks hreading hstopped hended hchunks hresults =>
    rw [hcalls, hresults, hreading, List.length_cons, List.length_replicate]
    rfl

theorem mem_calls {k : HttpClient.Call} (hk : k ∈ calls es) : ∃ o, .call k o ∈ es := by
  obtain ⟨e, he, heq⟩ := List.mem_filterMap.mp hk
  cases e with
  | call k' o =>
    obtain rfl := Option.some.inj heq
    exact ⟨o, he⟩
  | _ => cases heq

theorem Inv.returned (h : Inv cfg rt host es s)
    (hcall : ∀ k o, .call k o ∈ es → Plain host k) : Returned cfg rt host es s where
  sent := h.sent
  length := h.length
  later := by
    intro result hresult
    cases h.phase with
    | fresh hcalls hreading hstopped hresults =>
      rw [hresults] at hresult
      exact absurd hresult List.not_mem_nil
    | reading k hcalls hreading hstopped hresults =>
      rw [hresults] at hresult
      exact absurd hresult List.not_mem_nil
    | stopped k later hcalls chunks hreading hstopped hended hchunks hresults =>
      rw [hresults] at hresult
      exact List.eq_of_mem_replicate hresult
  first := by
    intro result hresult
    cases h.phase with
    | fresh hcalls hreading hstopped hresults =>
      rw [hresults] at hresult
      cases hresult
    | reading k hcalls hreading hstopped hresults =>
      rw [hresults] at hresult
      cases hresult
    | stopped k later hcalls chunks hreading hstopped hended hchunks hresults =>
      rw [hresults] at hresult
      obtain rfl := Option.some.inj hresult
      have hmem : k ∈ calls es := by
        rw [hcalls]
        exact List.mem_cons_self
      obtain ⟨o, ho⟩ := mem_calls hmem
      obtain ⟨req, w, hreceived, hpass, hanswer⟩ := h.answer (hcall k o ho) hcalls hended hchunks
      refine ⟨k, req, w, ?_, hreceived, hpass, hanswer⟩
      rw [hcalls]
      rfl
  next := h.call_ne_none

/-- **What the calls return**, whatever is registered, whatever the handlers do, and however the
bytes arrive on either side. -/
theorem calls_return (cfg : SessionConfig) (rt : Routes ω) (host : Bytes) (es : List (Event ω))
    (hcall : ∀ k o, .call k o ∈ es → Plain host k) {s : HttpExchange}
    (hrun : run (step cfg rt) { host } es = some s) : Returned cfg rt host es s :=
  have h : Inv cfg rt host es s :=
    inv_run (inv_start cfg rt host) (fun k o ho => (hcall k o ho).toWellFormed) hrun
  h.returned hcall

/-- The answer to the first of two calls comes in two parts. -/
def getTwice : List (Event Unit) :=
  [.call (.get (bytes "/hello") []) HttpSession.helloServer.order, .toServer 20, .toServer 39,
    .pass HttpSession.noFiles, .toClient 30, .toClient 70, .returns,
    .call (.get (bytes "/hello") []) HttpSession.helloServer.order]

theorem plain_of_mem_getTwice (k : HttpClient.Call) (o : HeaderOrder)
    (hcall : .call k o ∈ getTwice) : Plain (bytes "localhost") k := by
  have hk : k = .get (bytes "/hello") [] := by
    simp only [getTwice, List.mem_cons, Event.call.injEq, List.not_mem_nil] at hcall
    tauto
  rw [hk]
  exact {
    target := (by decide : IsWord (bytes "/hello"))
    hostNoLf := by decide
    hostTrimmed := by decide
    headers := fun _ he => absurd he List.not_mem_nil
    bodySize := by decide
    noKey := rfl }

theorem calls_return_getTwice : ∃ s,
    run (step HttpSession.helloServer HttpSession.hello) { host := bytes "localhost" } getTwice
      = some s ∧ s.results.length = 2 ∧
    Returned HttpSession.helloServer HttpSession.hello (bytes "localhost") getTwice s := by
  refine ⟨_, rfl, rfl, ?_⟩
  exact calls_return HttpSession.helloServer HttpSession.hello (bytes "localhost") getTwice
    plain_of_mem_getTwice rfl

/-! ### Every call returns -/

/-- The size of a request does not depend on the order of its headers. -/
theorem length_toStringFull (r : Request) (o o' : HeaderOrder) :
    (r.toStringFull o).length = (r.toStringFull o').length := by
  have hentries : (o.order r.headers.entries ++ r.addedFields).Perm
      (o'.order r.headers.entries ++ r.addedFields) :=
    ((o.perm _).trans (o'.perm _).symm).append_right _
  have hlines := (hentries.flatMap_right headerLine).length_eq
  unfold Request.toStringFull Request.fullHead Head.text
  dsimp only
  rw [List.length_append, List.length_append, List.length_append, hlines, ← List.length_append,
    ← List.length_append, ← List.length_append]

/-- A call that leaves the header `Connection` to the client asks for the end of the session. -/
theorem keepAlive_of_receivedAs {k : HttpClient.Call} {req : Request}
    (h : ReceivedAs (k.request host) req)
    (hconnection : Headers.lastGiven k.headers (bytes "Connection") = none) :
    Server.keepAlive req = false := by
  have hdefault : (defaultHeaders host k.method k.body).find? (bytes "Connection")
      = some (bytes "close") := by
    unfold defaultHeaders
    dsimp only
    split_ifs
    · rw [Headers.find?_set, if_neg (by decide), Headers.find?_set, if_neg (by decide),
        Headers.find?_set, if_pos (by decide)]
    · rw [Headers.find?_set, if_pos (by decide)]
  have hfind := find?_of_receivedAs h (bytes "Connection")
  rw [hconnection, hdefault] at hfind
  unfold Server.keepAlive Request.getHeaderValue Headers.getHeaderValue
  rw [hfind]
  exact decide_eq_false fun hno => hno rfl

/-- After such a request the session ends. -/
theorem served_of_close (cfg : SessionConfig) (rt : Routes ω) (w : Surroundings ω) {req : Request}
    (hclose : Server.keepAlive req = false) :
    (HttpSession.served cfg rt w req).result ≠ some true := by
  have hfalse (x : Writing Unit) : (x >>= fun _ => (pure false : Writing Bool)).result
      ≠ some true := by
    rw [Output.bind_result]
    cases x.result with
    | none => exact (Option.some_ne_none _).symm
    | some u => exact fun hno => Bool.false_ne_true (Option.some.inj hno)
  unfold HttpSession.served serve
  split_ifs with hupgrade
  · split
    · exact hfalse _
    · dsimp only
      split_ifs with hkey
      · exact hfalse _
      · exact hfalse _
  · split
    · exact (Option.some_ne_none _).symm
    · show (_ >>= fun _ => (pure (Server.keepAlive req) : Writing Bool)).result ≠ some true
      rw [hclose]
      exact hfalse _

/-- What has been done. -/
def done (o : HeaderOrder) (s : HttpExchange) : ℕ :=
  (s.server.sent.map fun r => (r.toStringFull o).length).sum +
    s.server.log.served.length + s.arrived.unread.length + 2 * s.results.length + s.reading.toNat

/-- **Every step** does something. -/
theorem done_step (o : HeaderOrder) {e : Event ω} (hstep : s.step cfg rt e = some s') :
    done o s + s'.server.toServer.length < done o s' + s.server.toServer.length := by
  unfold done
  cases e with
  | call k o' =>
    unfold step at hstep
    dsimp only at hstep
    split_ifs at hstep with hreading hstopped
    · obtain rfl := Option.some.inj hstep
      dsimp only
      rw [List.length_append, List.length_singleton]
      omega
    · obtain ⟨server, hserver, rfl⟩ := Option.map_eq_some_iff.mp hstep
      unfold HttpSession.step at hserver
      dsimp only at hserver
      split_ifs at hserver with hguard
      obtain rfl := Option.some.inj hserver
      dsimp only
      rw [Bool.not_eq_true] at hreading
      rw [hreading, List.map_append, List.sum_append, List.length_append,
        length_toStringFull _ o' o]
      simp only [List.map_cons, List.map_nil, List.sum_cons, List.sum_nil, Bool.toNat_false,
        Bool.toNat_true]
      omega
  | toServer n =>
    obtain ⟨server, hserver, rfl⟩ := Option.map_eq_some_iff.mp hstep
    unfold HttpSession.step at hserver
    dsimp only at hserver
    split_ifs at hserver with hn
    obtain rfl := Option.some.inj hserver
    dsimp only
    rw [List.length_drop]
    omega
  | pass w =>
    obtain ⟨server, hserver, rfl⟩ := Option.map_eq_some_iff.mp hstep
    obtain ⟨p, -, hserver⟩ := Option.bind_eq_some_iff.mp hserver
    obtain ⟨log, hlog, hserver⟩ := Option.bind_eq_some_iff.mp hserver
    obtain rfl := Option.some.inj hserver
    unfold SessionLog.step at hlog
    split_ifs at hlog with hended
    obtain rfl := Option.some.inj hlog
    dsimp only
    rw [List.length_append, List.length_singleton]
    omega
  | toClient n =>
    unfold step at hstep
    dsimp only at hstep
    split_ifs at hstep with hn
    obtain rfl := Option.some.inj hstep
    dsimp only
    unfold Socket.unread at hn ⊢
    rw [List.flatten_append, List.flatten_singleton, List.length_append, List.length_take]
    omega
  | returns =>
    unfold step at hstep
    dsimp only at hstep
    split_ifs at hstep with hdone
    obtain rfl := Option.some.inj hstep
    dsimp only
    rw [List.length_append, List.length_singleton, hdone.1, Bool.toNat_true, Bool.toNat_false]
    omega

/-- A run is no longer than what it has done. -/
theorem length_le_done (o : HeaderOrder) (hrun : run (step cfg rt) { host } es = some s) :
    es.length ≤ done o s := by
  obtain ⟨-, -, hlength⟩ := @run_progress _ _ (step cfg rt) Unit (fun _ _ => True)
    (fun s _ => done o s) (fun s => s.server.toServer.length)
    (fun _ hstep => ⟨(), trivial, done_step o hstep⟩) _ _ () es trivial hrun
  exact Nat.le_trans (Nat.le_add_left _ _) hlength

/-- **A call waits for nothing for ever**: bytes can arrive on one side or the other, or the server
can make a pass, or the call can return. -/
theorem Inv.moves (h : Inv cfg rt host es s) (hreading : s.reading = true)
    (hconnection : ∀ k ∈ calls es, Headers.lastGiven k.headers (bytes "Connection") = none) :
    (∃ n, s.step cfg rt (.toServer n) ≠ none) ∨ (∀ w, s.step cfg rt (.pass w) ≠ none) ∨
      (∃ n, s.step cfg rt (.toClient n) ≠ none) ∨ s.step cfg rt .returns ≠ none := by
  obtain ⟨ws, reqs, hserver, -⟩ := h.server
  obtain ⟨k, hcalls⟩ : ∃ k, calls es = [k] := by
    cases h.phase with
    | fresh hcalls hreading' hstopped hresults =>
      rw [hreading] at hreading'
      cases hreading'
    | reading k hcalls hreading' hstopped hresults => exact ⟨k, hcalls⟩
    | stopped k later hcalls chunks hreading' hstopped hended hchunks hresults =>
      rw [hreading] at hreading'
      cases hreading'
  have hsent : s.server.sent = [k.request host] := by
    rw [h.sent, hcalls]
    rfl
  by_cases htoServer : s.server.toServer = []
  · right
    by_cases hended : s.server.log.ended = true
    · right
      by_cases harrived : s.arrived.unread = s.server.log.bytes
      · right
        unfold step
        dsimp only
        rw [if_pos ⟨hreading, hended, harrived⟩]
        exact Option.some_ne_none _
      · left
        have hall := List.prefix_iff_eq_append.mp h.arrived
        have hleft : s.server.log.bytes.drop s.arrived.unread.length ≠ [] := by
          intro hnil
          rw [hnil, List.append_nil] at hall
          exact harrived hall
        refine ⟨(s.server.log.bytes.drop s.arrived.unread.length).length, ?_⟩
        unfold step
        dsimp only
        rw [if_pos ⟨List.length_pos_of_ne_nil hleft, Nat.le_refl _⟩]
        exact Option.some_ne_none _
    · left
      intro w
      -- a request that has been read would have ended the session
      have hwaiting : reqs.length < s.server.sent.length := by
        rw [hsent]
        rcases hserver.one hsent with rfl | ⟨w', req, rfl, rfl, hreceived⟩
        · exact Nat.zero_lt_one
        · have hk := hconnection k (by rw [hcalls]; exact List.mem_singleton_self k)
          have hclose := served_of_close cfg rt w' (keepAlive_of_receivedAs hreceived hk)
          exact absurd (hserver.logged.ended.mpr ⟨(w', req), List.mem_singleton_self _, hclose⟩)
            hended
      have hpass := hserver.pass_ne_none hwaiting htoServer (Bool.eq_false_iff.mpr hended) w
      intro hnone
      exact hpass (Option.map_eq_none_iff.mp hnone)
  · left
    refine ⟨s.server.toServer.length, ?_⟩
    unfold step HttpSession.step
    dsimp only
    rw [if_pos ⟨List.length_pos_of_ne_nil htoServer, Nat.le_refl _⟩]
    exact Option.some_ne_none _

/-- How much can be done. -/
theorem Inv.done_le (h : Inv cfg rt host es s) (o : HeaderOrder) :
    done o s ≤ (((calls es).take 1).map fun k => ((k.request host).toStringFull o).length).sum +
      s.server.log.bytes.length + 2 * (calls es).length + 1 := by
  obtain ⟨ws, reqs, hserver, -⟩ := h.server
  have hsizes : (s.server.sent.map fun r => (r.toStringFull o).length)
      = ((calls es).take 1).map fun k => ((k.request host).toStringFull o).length := by
    rw [h.sent, List.map_map]
    rfl
  have hserved : s.server.log.served.length ≤ 1 := by
    rw [hserver.logged.length_served, ← hserver.received.1.length_eq, h.sent]
    calc
      _ ≤ (((calls es).take 1).map (HttpClient.Call.request host)).length :=
        List.length_take_le' _ _
      _ = ((calls es).take 1).length := List.length_map _
      _ ≤ 1 := List.length_take_le 1 (calls es)
  have harrived := h.arrived.length_le
  have hcalls := h.length
  unfold done
  rw [hsizes]
  omega

/-- **Every call returns**, unless it replaces the header `Connection`: there is only so much that
can happen, and as long as a call has not returned, something can. -/
theorem calls_progress (cfg : SessionConfig) (rt : Routes ω) (host : Bytes) (es : List (Event ω))
    (hcall : ∀ k o, .call k o ∈ es → Plain host k) {s : HttpExchange}
    (hrun : run (step cfg rt) { host } es = some s)
    (hconnection : ∀ k ∈ calls es, Headers.lastGiven k.headers (bytes "Connection") = none) :
    es.length ≤ (((calls es).take 1).map fun k =>
        ((k.request host).toStringFull cfg.order).length).sum +
      s.server.log.bytes.length + 2 * (calls es).length + 1 ∧
    (s.reading = true → (∃ n, s.step cfg rt (.toServer n) ≠ none) ∨
      (∀ w, s.step cfg rt (.pass w) ≠ none) ∨ (∃ n, s.step cfg rt (.toClient n) ≠ none) ∨
      s.step cfg rt .returns ≠ none) := by
  have h : Inv cfg rt host es s :=
    inv_run (inv_start cfg rt host) (fun k o ho => (hcall k o ho).toWellFormed) hrun
  constructor
  · have hlength := length_le_done cfg.order hrun
    have hdone := h.done_le cfg.order
    omega
  · intro hreading
    exact h.moves hreading hconnection

/-- The same calls, while the answer has not arrived yet. -/
theorem calls_progress_getTwice : ∃ s,
    run (step HttpSession.helloServer HttpSession.hello) { host := bytes "localhost" }
      (getTwice.take 4) = some s ∧ s.reading = true ∧
    ((∃ n, s.step HttpSession.helloServer HttpSession.hello (.toServer n) ≠ none) ∨
      (∀ w, s.step HttpSession.helloServer HttpSession.hello (.pass w) ≠ none) ∨
      (∃ n, s.step HttpSession.helloServer HttpSession.hello (.toClient n) ≠ none) ∨
      s.step HttpSession.helloServer HttpSession.hello .returns ≠ none) := by
  refine ⟨_, rfl, rfl, ?_⟩
  refine (calls_progress HttpSession.helloServer HttpSession.hello (bytes "localhost")
    (getTwice.take 4) (fun k o hmem => ?_) rfl ?_).2 rfl
  · exact plain_of_mem_getTwice k o (List.mem_of_mem_take hmem)
  · exact List.forall_mem_singleton.mpr rfl

end HttpExchange

end WebSocketsLib
