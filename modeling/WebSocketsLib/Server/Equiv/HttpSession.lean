import WebSocketsLib.Lib.Runs
import WebSocketsLib.Server.Equiv.RequestRoundTrip
import WebSocketsLib.Server.HttpSession

/-!
# The requests of a connection that is kept alive

`HttpSession.answers`: a peer that waits for its answers loses none of its requests, however its
bytes arrive.  Each is read once and in its order, and answered by what has been registered for it.
-/

namespace WebSocketsLib

open Runs

/-! ### `do_read` on a stream that is still arriving -/

/-- One chunk more. -/
theorem unread_concat (socket : Socket) (chunk : Bytes) :
    Socket.unread (socket ++ [chunk]) = socket.unread ++ chunk := by
  unfold Socket.unread
  rw [List.flatten_append, List.flatten_singleton]

/-- **`do_read` takes no more chunks than it needs.** -/
theorem doRead_append {socket rest : Socket} {req : Request}
    (h : doRead socket = some (req, rest)) (more : Socket) :
    doRead (socket ++ more) = some (req, rest ++ more) := by
  rw [doRead_eq] at h ⊢
  obtain ⟨⟨text, buf, socket'⟩, hheaders, h⟩ := Option.bind_eq_some_iff.mp h
  have hheaders' : coReadHeaders (socket ++ more) [] = some (text, buf, socket' ++ more) := by
    unfold coReadHeaders at hheaders ⊢
    obtain ⟨⟨n, buf', rest'⟩, huntil, heq⟩ := Option.bind_eq_some_iff.mp hheaders
    obtain ⟨rfl, hpair⟩ := Prod.mk.inj (Option.some.inj heq)
    obtain ⟨rfl, rfl⟩ := Prod.mk.inj hpair
    exact Option.bind_eq_some_iff.mpr ⟨_, Chunks.readUntil_append huntil more, rfl⟩
  apply Option.bind_eq_some_iff.mpr ⟨_, hheaders', ?_⟩
  obtain ⟨⟨body, buf', rest'⟩, hbody, heq⟩ := Option.map_eq_some_iff.mp h
  obtain ⟨rfl, rfl⟩ := Prod.mk.inj heq
  apply Option.map_eq_some_iff.mpr ⟨(body, buf', rest' ++ more), ?_, rfl⟩
  unfold coReadBody at hbody ⊢
  obtain ⟨⟨late, rest''⟩, hexactly, heq⟩ := Option.bind_eq_some_iff.mp hbody
  obtain ⟨rfl, hpair⟩ := Prod.mk.inj (Option.some.inj heq)
  obtain ⟨rfl, rfl⟩ := Prod.mk.inj hpair
  exact Option.bind_eq_some_iff.mpr ⟨_, Chunks.readExactly_append hexactly more, rfl⟩

/-- A request has some bytes. -/
theorem unread_ne_nil_of_doRead {socket : Socket} {p : Request × Socket}
    (h : doRead socket = some p) : socket.unread ≠ [] := by
  rw [doRead_eq] at h
  obtain ⟨⟨text, buf, socket'⟩, hheaders, -⟩ := Option.bind_eq_some_iff.mp h
  unfold coReadHeaders at hheaders
  obtain ⟨⟨n, buf', rest'⟩, huntil, -⟩ := Option.bind_eq_some_iff.mp hheaders
  intro hnil
  have hinfix : crlfcrlf <:+: [] ++ socket.unread := Chunks.infix_of_readUntil huntil
  rw [hnil, List.append_nil, List.infix_nil] at hinfix
  exact absurd hinfix (by decide)

/-- **What the server reads** of a request: the request itself, with the header that `to_string`
adds. -/
structure ReceivedAs (r req : Request) : Prop where
  method : req.method = r.method
  target : req.target = r.target
  version : req.version = r.version
  body : req.body = r.body
  headers : req.headers.entries.Perm (r.headers.entries ++ r.addedFields)
  path : (req.path, req.queryParams) = splitTarget r.target

theorem receivedAs_value {r : Request} (o : HeaderOrder) (hr : r.Sendable) :
    ReceivedAs r (r.wireRequest o hr).value := by
  have hvalue : (r.wireRequest o hr).value
      = { requestOf (methodStr r.method) r.target r.version (r.receivedHeaders o) with
          body := r.body } := by
    rw [WireRequest.value]
    show { parseHttpRequest (r.fullHead o).text with body := r.body } = _
    rw [hr.parse]
  rw [hvalue]
  exact ⟨methodEnum_methodStr r.method, rfl, rfl, rfl, (o.perm _).append_right _, rfl⟩

/-- A request that has arrived, and nothing behind it. -/
theorem doRead_wire (q : WireRequest) {socket : Socket} (h : socket.unread = q.wire) :
    ∃ rest, doRead socket = some (q.value, rest) ∧ rest.unread = [] := by
  have hwire : socket.unread = q.wire ++ [] := by
    rw [h, List.append_nil]
  obtain ⟨rest, hread, hleft, -⟩ := doRead_spec q hwire
  refine ⟨rest, hread, hleft.mpr ?_⟩
  -- the end of the stream is the end of the request
  have hlen : socket.flatten.length = q.wire.length := by
    rw [← Socket.unread, h]
  refine ⟨socket, [], (List.append_nil socket).symm, ?_, Nat.le_of_eq hlen⟩
  rw [hlen, WireRequest.length_wire]
  exact Nat.le_add_right _ _

/-- **`do_read` returns when the whole request has arrived**, and not before. -/
theorem doRead_wire_arriving (q : WireRequest) {req : Request} {socket rest : Socket}
    {later : Bytes} (h : socket.unread ++ later = q.wire)
    (hread : doRead socket = some (req, rest)) : req = q.value ∧ later = [] ∧ rest.unread = [] := by
  have hwhole : Socket.unread (socket ++ [later]) = q.wire := by
    rw [unread_concat]
    exact h
  obtain ⟨rest', hread', hnil⟩ := doRead_wire q hwhole
  rw [doRead_append hread [later]] at hread'
  obtain ⟨rfl, rfl⟩ := Prod.mk.inj (Option.some.inj hread')
  rw [unread_concat] at hnil
  obtain ⟨hrest, hlater⟩ := List.append_eq_nil_iff.mp hnil
  exact ⟨rfl, hlater, hrest⟩

theorem doRead_whole {r : Request} {o : HeaderOrder} {socket : Socket} (hr : r.Sendable)
    (h : socket.unread = r.toStringFull o) :
    ∃ req rest, doRead socket = some (req, rest) ∧ ReceivedAs r req ∧ rest.unread = [] := by
  obtain ⟨rest, hread, hnil⟩ := doRead_wire (r.wireRequest o hr) h
  exact ⟨_, rest, hread, receivedAs_value o hr, hnil⟩

theorem doRead_arriving {r req : Request} {o : HeaderOrder} {socket rest : Socket} {later : Bytes}
    (hr : r.Sendable) (h : socket.unread ++ later = r.toStringFull o)
    (hread : doRead socket = some (req, rest)) :
    ReceivedAs r req ∧ later = [] ∧ rest.unread = [] := by
  obtain ⟨rfl, hlater, hrest⟩ := doRead_wire_arriving (r.wireRequest o hr) h hread
  exact ⟨receivedAs_value o hr, hlater, hrest⟩

namespace HttpSession

variable {ω : Type} {cfg : SessionConfig} {rt : Routes ω} {s s' : HttpSession}
  {ws : List (Surroundings ω)} {reqs : List Request}

/-! ### The invariant -/

/-- What a pass does. -/
def served (cfg : SessionConfig) (rt : Routes ω) (w : Surroundings ω) (req : Request) :
    Writing Bool :=
  serve (rt.config cfg) (rt.exchange w req)

/-- The log, when the passes `ws` have read the requests `reqs`. -/
structure Logged (cfg : SessionConfig) (rt : Routes ω) (log : SessionLog)
    (ws : List (Surroundings ω)) (reqs : List Request) : Prop where
  length : reqs.length = ws.length
  served : log.served = List.zipWith (fun w req => (served cfg rt w req).out) ws reqs
  ended : log.ended = true ↔
    ∃ p ∈ ws.zip reqs, (HttpSession.served cfg rt p.1 p.2).result ≠ some true

theorem Logged.length_served {log : SessionLog} (h : Logged cfg rt log ws reqs) :
    log.served.length = reqs.length := by
  rw [h.served, List.length_zipWith, h.length, Nat.min_self]

/-- One pass more. -/
theorem Logged.pass {log log' : SessionLog} (h : Logged cfg rt log ws reqs) {w : Surroundings ω}
    {req : Request} (hstep : log.step (rt.config cfg) (rt.exchange w req) = some log') :
    Logged cfg rt log' (ws ++ [w]) (reqs ++ [req]) := by
  unfold SessionLog.step at hstep
  split_ifs at hstep with hended
  obtain rfl := Option.some.inj hstep
  refine ⟨?_, ?_, ?_⟩
  · rw [List.length_append, List.length_append, h.length]
    rfl
  · rw [List.zipWith_append h.length.symm, ← h.served]
    rfl
  · rw [List.zip_append h.length.symm]
    have hbefore : ¬ ∃ p ∈ ws.zip reqs, (HttpSession.served cfg rt p.1 p.2).result ≠ some true :=
      fun hyes => hended (h.ended.mpr hyes)
    constructor
    · intro hresult
      exact ⟨(w, req), List.mem_append_right _ (List.mem_singleton_self _),
        of_decide_eq_true hresult⟩
    · rintro ⟨p, hp, hresult⟩
      rcases List.mem_append.mp hp with hold | hnew
      · exact absurd ⟨p, hold, hresult⟩ hbefore
      · obtain rfl : p = (w, req) := List.mem_singleton.mp hnew
        exact decide_eq_true hresult

/-- **Where the requests of the peer are.** -/
inductive Inv (cfg : SessionConfig) (rt : Routes ω) (s : HttpSession)
    (ws : List (Surroundings ω)) (reqs : List Request) : Prop
  /-- All of them have been answered. -/
  | idle (hlog : Logged cfg rt s.log ws reqs) (hreceived : List.Forall₂ ReceivedAs s.sent reqs)
      (hsocket : s.socket.unread = []) (htoServer : s.toServer = [])
  /-- The last one has not been read. -/
  | waiting (answered : List Request) (r : Request) (o : HeaderOrder)
      (hlog : Logged cfg rt s.log ws reqs) (hsent : s.sent = answered ++ [r])
      (hreceived : List.Forall₂ ReceivedAs answered reqs) (hr : r.Sendable)
      (hbytes : s.socket.unread ++ s.toServer = r.toStringFull o)

theorem inv_start (cfg : SessionConfig) (rt : Routes ω) : Inv cfg rt {} [] [] := by
  refine .idle ⟨rfl, rfl, iff_of_false Bool.false_ne_true ?_⟩ .nil rfl rfl
  rintro ⟨p, hp, -⟩
  exact absurd hp List.not_mem_nil

/-- **Every step.** -/
theorem inv_step {e : Event ω} (h : Inv cfg rt s ws reqs)
    (hsend : ∀ r o, e = .send r o → r.Sendable) (hstep : step cfg rt s e = some s') :
    ∃ reqs', Inv cfg rt s' (ws ++ passes [e]) reqs' := by
  cases e with
  | send r o =>
    unfold step at hstep
    dsimp only at hstep
    split_ifs at hstep with hguard
    obtain rfl := Option.some.inj hstep
    refine ⟨reqs, ?_⟩
    rw [show passes [Event.send r o] = ([] : List (Surroundings ω)) from rfl, List.append_nil]
    cases h with
    | idle hlog hreceived hsocket htoServer =>
      refine .waiting s.sent r o hlog rfl hreceived (hsend r o rfl) ?_
      rw [hsocket, htoServer]
      rfl
    | waiting answered r' o' hlog hsent hreceived hr hbytes =>
      rw [hlog.length_served, hsent, List.length_append, hreceived.length_eq,
        List.length_singleton] at hguard
      omega
  | arrive n =>
    unfold step at hstep
    dsimp only at hstep
    split_ifs at hstep with hn
    obtain rfl := Option.some.inj hstep
    refine ⟨reqs, ?_⟩
    rw [show passes [Event.arrive n] = ([] : List (Surroundings ω)) from rfl, List.append_nil]
    cases h with
    | idle hlog hreceived hsocket htoServer =>
      rw [htoServer, List.length_nil] at hn
      omega
    | waiting answered r o hlog hsent hreceived hr hbytes =>
      refine .waiting answered r o hlog hsent hreceived hr ?_
      show Socket.unread (s.socket ++ [s.toServer.take n]) ++ s.toServer.drop n = _
      rw [unread_concat, List.append_assoc, List.take_append_drop]
      exact hbytes
  | pass w =>
    obtain ⟨⟨req, socket⟩, hread, hstep⟩ := Option.bind_eq_some_iff.mp hstep
    obtain ⟨log, hlog', hstep⟩ := Option.bind_eq_some_iff.mp hstep
    obtain rfl := Option.some.inj hstep
    cases h with
    | idle hlog hreceived hsocket htoServer =>
      exact absurd hsocket (unread_ne_nil_of_doRead hread)
    | waiting answered r o hlog hsent hreceived hr hbytes =>
      obtain ⟨hone, htoServer, hsocket⟩ := doRead_arriving hr hbytes hread
      refine ⟨reqs ++ [req], .idle (hlog.pass hlog') ?_ hsocket htoServer⟩
      show List.Forall₂ ReceivedAs s.sent (reqs ++ [req])
      rw [hsent]
      exact List.rel_append hreceived (.cons hone .nil)

/-- **Every run.** -/
theorem inv_run {es : List (Event ω)} (h : Inv cfg rt s ws reqs)
    (hsend : ∀ r o, .send r o ∈ es → r.Sendable) (hrun : run (step cfg rt) s es = some s') :
    ∃ reqs', Inv cfg rt s' (ws ++ passes es) reqs' := by
  induction es generalizing s ws reqs with
  | nil =>
    obtain rfl : s = s' := Option.some.inj hrun
    refine ⟨reqs, ?_⟩
    rw [show passes ([] : List (Event ω)) = [] from rfl, List.append_nil]
    exact h
  | cons e es ih =>
    obtain ⟨s₁, h₁, hrun⟩ := run_cons_eq_some hrun
    have hone : ∀ r o, e = .send r o → r.Sendable := by
      rintro r o rfl
      exact hsend r o List.mem_cons_self
    obtain ⟨reqs₁, hinv₁⟩ := inv_step h hone h₁
    obtain ⟨reqs', hinv⟩ := ih hinv₁ (fun r o hmem => hsend r o (List.mem_cons_of_mem e hmem)) hrun
    refine ⟨reqs', ?_⟩
    have hpasses : passes (e :: es) = passes [e] ++ passes es := by
      rw [← List.singleton_append]
      exact List.filterMap_append
    rw [hpasses, ← List.append_assoc]
    exact hinv

/-! ### Every request is answered once -/

theorem Inv.logged (h : Inv cfg rt s ws reqs) : Logged cfg rt s.log ws reqs := by
  cases h with
  | idle hlog hreceived hsocket htoServer => exact hlog
  | waiting answered r o hlog hsent hreceived hr hbytes => exact hlog

/-- The first requests have been read, all or all but the last. -/
theorem Inv.received (h : Inv cfg rt s ws reqs) :
    List.Forall₂ ReceivedAs (s.sent.take reqs.length) reqs ∧
      s.sent.length ≤ reqs.length + 1 := by
  cases h with
  | idle hlog hreceived hsocket htoServer =>
    rw [← hreceived.length_eq, List.take_length]
    exact ⟨hreceived, Nat.le_succ _⟩
  | waiting answered r o hlog hsent hreceived hr hbytes =>
    rw [hsent, ← hreceived.length_eq, List.take_left, List.length_append]
    exact ⟨hreceived, Nat.le_refl _⟩

/-- A request that has arrived can be read, unless the session has ended. -/
theorem Inv.pass_ne_none (h : Inv cfg rt s ws reqs) (hwaiting : reqs.length < s.sent.length)
    (htoServer : s.toServer = []) (hended : s.log.ended = false) (w : Surroundings ω) :
    step cfg rt s (.pass w) ≠ none := by
  cases h with
  | idle hlog hreceived hsocket htoServer' =>
    rw [hreceived.length_eq] at hwaiting
    exact absurd hwaiting (Nat.lt_irrefl _)
  | waiting answered r o hlog hsent hreceived hr hbytes =>
    rw [htoServer, List.append_nil] at hbytes
    obtain ⟨req, rest, hread, -, -⟩ := doRead_whole hr hbytes
    have hlog' : s.log.step (rt.config cfg) (rt.exchange w req)
        = some { served := s.log.served ++ [(served cfg rt w req).out]
                 ended := decide ((served cfg rt w req).result ≠ some true) } :=
      if_neg (by rw [hended]; exact Bool.false_ne_true)
    have hpass : step cfg rt s (.pass w) = some { s with
        socket := rest
        log := { served := s.log.served ++ [(served cfg rt w req).out]
                 ended := decide ((served cfg rt w req).result ≠ some true) } } :=
      Option.bind_eq_some_iff.mpr ⟨_, hread, Option.bind_eq_some_iff.mpr ⟨_, hlog', rfl⟩⟩
    rw [hpass]
    exact Option.some_ne_none _

/-- **What becomes of the requests** of the peer: the passes have read `reqs`, the first of them,
all or all but the last, and have written what the routes answer to each; the session has ended if
one of these has not asked for another.  A request that has arrived can be read, unless the session
has ended. -/
structure Answered (cfg : SessionConfig) (rt : Routes ω) (es : List (Event ω)) (s : HttpSession)
    (reqs : List Request) : Prop where
  received : List.Forall₂ ReceivedAs (s.sent.take reqs.length) reqs
  sent : s.sent.length ≤ reqs.length + 1
  served : s.log.served = List.zipWith (fun w req => (served cfg rt w req).out) (passes es) reqs
  length : reqs.length = (passes es).length
  ended : s.log.ended = true ↔
    ∃ p ∈ (passes es).zip reqs, (HttpSession.served cfg rt p.1 p.2).result ≠ some true
  next : reqs.length < s.sent.length → s.toServer = [] → s.log.ended = false →
    ∀ w, step cfg rt s (.pass w) ≠ none

/-- **Every request is read once and answered in its turn**, whatever is registered, whatever the
handlers and the socket do, and however the bytes arrive. -/
theorem answers (cfg : SessionConfig) (rt : Routes ω) (es : List (Event ω)) {s : HttpSession}
    (hsend : ∀ r o, .send r o ∈ es → r.Sendable) (hrun : run (step cfg rt) {} es = some s) :
    ∃ reqs, Answered cfg rt es s reqs := by
  obtain ⟨reqs, h⟩ := inv_run (inv_start cfg rt) hsend hrun
  rw [List.nil_append] at h
  exact ⟨reqs, h.received.1, h.received.2, h.logged.served, h.logged.length, h.logged.ended,
    fun hwaiting htoServer hended w => h.pass_ne_none hwaiting htoServer hended w⟩

/-- A server with one handler. -/
def helloServer : SessionConfig where
  useSsl := false
  findWs := fun _ => none
  platform := .linux
  order := reverseOrder
  wsAcceptKey := id

def hello : Routes Unit :=
  ({} : Routes Unit).addRoute .get (bytes "/hello") fun _ _ => some (Response.text (bytes "hi"))

/-- A request that asks for another. -/
def getHello : Request where
  method := .get
  version := bytes "HTTP/1.1"
  target := bytes "/hello"

/-- No files. -/
def noFiles : Surroundings Unit where
  world := ()
  fs := {
    cwd := bytes "/"
    cwd_isAbsolute := by decide
    canonicalError := fun _ => false
    fileExists := fun _ => none
    fileSize := fun _ => none }

/-- Two requests, of which the first arrives in two parts. -/
def twoHellos : List (Event Unit) :=
  [.send getHello helloServer.order, .arrive 20, .arrive 3, .pass noFiles,
    .send getHello helloServer.order, .arrive 23, .pass noFiles]

theorem sendable_getHello : getHello.Sendable where
  target := by decide
  version := by decide
  names := fun _ he => absurd he List.not_mem_nil
  values := fun _ he => absurd he List.not_mem_nil
  length := fun _ hno => by cases hno
  bodySize := by decide

theorem answers_twoHellos : ∃ s, run (step helloServer hello) {} twoHellos = some s ∧
    s.log.served.length = 2 ∧ ∃ reqs, Answered helloServer hello twoHellos s reqs := by
  refine ⟨_, rfl, rfl, answers helloServer hello twoHellos ?_ rfl⟩
  intro r o hsend
  have hr : r = getHello := by
    simp only [twoHellos, List.mem_cons, Event.send.injEq, List.not_mem_nil] at hsend
    tauto
  rw [hr]
  exact sendable_getHello

end HttpSession

end WebSocketsLib
