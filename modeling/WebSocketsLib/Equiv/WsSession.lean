import WebSocketsLib.Equiv.Dialogue
import WebSocketsLib.Equiv.Handshake
import WebSocketsLib.Server.Equiv.HttpSession
import WebSocketsLib.WsSession

/-!
# From the handshake to the frames

* `WsSession.connect_decides`: `connect` returns only if there is a route for its path, throws only
  if there is none, and as long as it reads there is a step that takes it on.
* `WsSession.dialogue_of_run`: when `connect` has returned, and has read no further than the header
  block, the two ends are in a state that a `Dialogue` reaches by the same steps.
* `WsSession.quiet_dialogue`: it reads no further if the server sends nothing of its own accord.
-/

namespace WebSocketsLib

open Runs Chunks

/-! ### The request on a stream that is still arriving -/

section

variable {host path key : Bytes} (hhost : 0x0A ∉ host) (hpath : IsWord path)
  (hkey : ∀ c ∈ key, isSpace c = false)

include hhost hpath hkey

theorem bodyLength_connectRequest :
    (parseHttpRequest (connectRequest host path key)).contentLength.getD 0
      = ([] : Bytes).length := by
  have hno : (upgradeHeaders host key).contentLength = none := by
    apply Headers.contentLength_eq_none
    rw [contains_upgradeHeaders]
    decide
  rw [parse_connectRequest hhost hpath hkey, Request.contentLength]
  show (upgradeHeaders host key).contentLength.getD 0 = 0
  rw [hno]
  rfl

/-- The request, which has no body. -/
def connectWire : WireRequest where
  head := connectRequest host path key
  body := []
  headEnds := findEnd_connectRequest hhost hpath hkey
  bodyLength := bodyLength_connectRequest hhost hpath hkey

theorem wire_connectWire :
    (connectWire hhost hpath hkey).wire = connectRequest host path key :=
  List.append_nil _

theorem value_connectWire :
    (connectWire hhost hpath hkey).value = upgradeRequest host path key := by
  show { parseHttpRequest (connectRequest host path key) with body := [] } = _
  rw [parse_connectRequest hhost hpath hkey]
  rfl

end

/-! ### The answer on a stream that is still arriving -/

theorem readHttpHeadersLoop_append {fuel fuel' : ℕ} {out out' buf : Bytes}
    {socket rest : Socket} (h : readHttpHeadersLoop fuel out buf socket = some (out', rest))
    (hfuel : fuel ≤ fuel') (more : Socket) :
    readHttpHeadersLoop fuel' out buf (socket ++ more) = some (out', rest ++ more) := by
  induction fuel generalizing fuel' out buf socket with
  | zero => cases h
  | succ fuel ih =>
    obtain ⟨fuel', rfl⟩ : ∃ n, fuel' = n + 1 := Nat.exists_eq_add_one.mpr (by omega)
    rw [readHttpHeadersLoop] at h ⊢
    obtain ⟨⟨n, buf', socket'⟩, hread, h⟩ := Option.bind_eq_some_iff.mp h
    apply Option.bind_eq_some_iff.mpr ⟨_, readUntil_append hread more, ?_⟩
    dsimp only at h ⊢
    split_ifs at h ⊢ with hline
    · obtain ⟨rfl, rfl⟩ := Prod.mk.inj (Option.some.inj h)
      rfl
    · exact ih h (Nat.le_of_succ_le_succ hfuel)

/-- **`read_http_headers` takes no more chunks than it needs.** -/
theorem readHttpHeaders_append {socket rest : Socket} {response : Bytes}
    (h : readHttpHeaders socket = some (response, rest)) (more : Socket) :
    readHttpHeaders (socket ++ more) = some (response, rest ++ more) := by
  apply readHttpHeadersLoop_append h
  unfold Socket.unread
  rw [List.flatten_append, List.length_append]
  omega

/-- The test of the status does not depend on what comes later. -/
theorem connect_append {socket rest : Socket} {response : Bytes}
    (h : readHttpHeaders socket = some (response, rest)) (more : Socket) :
    connect (socket ++ more) = (connect socket).map fun _ => rest ++ more := by
  unfold connect
  rw [readHttpHeaders_append h more, h]
  simp only [Option.bind_eq_bind, Option.bind_some]
  split_ifs
  · rfl
  · rfl

theorem connect_eq_some_iff {socket rest rest' : Socket} {response : Bytes}
    (h : readHttpHeaders socket = some (response, rest)) (hsome : (connect socket).isSome) :
    connect socket = some rest' ↔ rest' = rest := by
  unfold connect at hsome ⊢
  rw [h] at hsome ⊢
  simp only [Option.bind_eq_bind, Option.bind_some] at hsome ⊢
  split_ifs at hsome ⊢
  · cases hsome
  · exact Option.some_inj.trans eq_comm

/-- A head that has arrived is read. -/
theorem readHttpHeaders_head {head : Head} {f : Bytes} {socket : Socket}
    (hlf : ∀ line ∈ head.lines, 0x0A ∉ line) (hline : head.startLine ≠ [])
    (h : socket.unread = head.text ++ f) : ∃ taken rest,
      FirstCut [] socket head.text.length taken rest ∧
        readHttpHeaders socket = some (joinedLines head.lines, rest) := by
  rw [Head.text_eq_headerText] at h ⊢
  have hfuel : head.lines.length < socket.unread.length + 1 := by
    have hlen := length_le_headerText head.lines
    rw [h, List.length_append]
    omega
  exact readHttpHeadersLoop_spec [] [] hlf (List.forall_mem_cons.mpr ⟨hline, fieldLine_ne_nil⟩) h
    hfuel

/-- **A head that is arriving**: when it is read, it is there, and what follows it is left if it has
come in chunks of its own. -/
theorem readHttpHeaders_arriving {head : Head} {f later response : Bytes} {arrived rest : Socket}
    (hlf : ∀ line ∈ head.lines, 0x0A ∉ line) (hline : head.startLine ≠ [])
    (h : arrived.unread ++ later = head.text ++ f)
    (hread : readHttpHeaders arrived = some (response, rest)) :
    head.text.length ≤ arrived.unread.length ∧
      (CutIn arrived head.text.length head.text.length →
        arrived.unread = head.text ++ rest.unread) := by
  have hwhole : Socket.unread (arrived ++ [later]) = head.text ++ f := by
    rw [unread_concat]
    exact h
  obtain ⟨taken, rest', hcut, hread'⟩ := readHttpHeaders_head hlf hline hwhole
  rw [readHttpHeaders_append hread [later]] at hread'
  obtain ⟨-, rfl⟩ := Prod.mk.inj (Option.some.inj hread')
  have hsplit : arrived = taken ++ rest := by
    have hchunks := hcut.split
    rw [← List.append_assoc] at hchunks
    exact List.append_cancel_right hchunks
  constructor
  · have hle := hcut.le
    rw [List.nil_append] at hle
    unfold Socket.unread
    rw [hsplit, List.flatten_append, List.length_append]
    omega
  · rintro ⟨before, after, hbefore, hlo, hhi⟩
    have hcutAll : CutIn (arrived ++ [later]) head.text.length head.text.length :=
      ⟨before, after ++ [later], by rw [hbefore, List.append_assoc], hlo, hhi⟩
    have hrest : Socket.unread (rest ++ [later]) = f := (hcut.rest_eq_iff hwhole).mpr hcutAll
    rw [unread_concat] at hrest
    rw [← hrest, ← List.append_assoc] at h
    exact List.append_cancel_right h

/-! ### The answer of the server -/

/-- The server with `ws_accept_key`. -/
def withSha1 (cfg : SessionConfig) (sha1 : Sha1) : SessionConfig :=
  { cfg with wsAcceptKey := wsAcceptKey sha1 }

/-- There is nothing after an upgrade. -/
theorem result_serve_upgrade (cfg : SessionConfig) {x : Exchange} (hup : x.req.isWsUpgrade = true) :
    (serve cfg x).result ≠ some true := by
  have hlast : ∀ w : Writing Unit, (w >>= fun _ => (pure false : Writing Bool)).result
      ≠ some true := by
    intro w
    rw [Output.bind_result]
    cases w.result with
    | none => simp
    | some a => simp
  rw [serve, if_pos hup]
  split
  · exact hlast _
  · dsimp only
    split_ifs
    · exact hlast _
    · exact hlast _

/-- The answer to an upgrade has been written. -/
theorem result_serve_route (cfg : SessionConfig) {x : Exchange} {handlers : WsHandlers}
    (hup : x.req.isWsUpgrade = true) (hfind : cfg.findWs x.req.path = some handlers)
    (hne : x.req.getHeaderValue (bytes "Sec-WebSocket-Key") ≠ []) (hok : x.os.write = none) :
    (serve cfg x).result ≠ none := by
  have hregular : doWrite cfg.toBuild cfg.socketType x.os (build101Response (cfg.wsAcceptKey
      (x.req.getHeaderValue (bytes "Sec-WebSocket-Key"))))
        = asyncWrite (acceptHead cfg.order (cfg.wsAcceptKey
          (x.req.getHeaderValue (bytes "Sec-WebSocket-Key")))) [] x.os.write := rfl
  rw [serve, if_pos hup, hfind]
  dsimp only
  rw [if_neg hne, Output.bind_result, hregular, hok]
  exact Option.some_ne_none _

/-- What `connect` is called with, and what `std::random_device` gives for the key. -/
structure ConnectArgs (host path r : Bytes) : Prop where
  noLf : 0x0A ∉ host
  isWord : IsWord path
  noQuery : 0x3F ∉ path
  length_eq : r.length = 16

namespace WsSession

open WebSocketClient

variable {cfg : SessionConfig} {sha1 : Sha1} {react : Bytes → List Callback → List Call}
  {host path r : Bytes} {s s' : WsSession}

/-- The head of the answer. -/
def answerHead (cfg : SessionConfig) (sha1 : Sha1) (r : Bytes) : Head :=
  acceptHead cfg.order (wsAcceptKey sha1 (generateKey r))

/-- The application of the route. -/
def routeApp (react : Bytes → List Callback → List Call) (path : Bytes) (handlers : WsHandlers) :
    App :=
  ⟨handlers, react path⟩

theorem step_fresh (x : Exchange) : ({} : SessionLog).step cfg x = some {
    served := [(serve cfg x).out]
    ended := decide ((serve cfg x).result ≠ some true) } :=
  if_neg Bool.false_ne_true

/-- **The pass that answers the request.** -/
theorem step_pass {resp : Option Response} {os : Outcomes} (hargs : ConnectArgs host path r)
    (hbytes : s.socket.unread ++ s.toServer = connectRequest host path (generateKey r))
    (hlog : s.log = {}) (hok : os.write = none)
    (hstep : s.step (withSha1 cfg sha1) react (.pass resp os) = some s') :
    s'.arrived = s.arrived ∧ s'.point = s.point ∧ s'.log.ended = true ∧
      ((cfg.findWs path = none ∧ s'.opened = s.opened ∧
        s'.log.bytes = noRoute.toStringFull cfg.order) ∨
      ∃ handlers, cfg.findWs path = some handlers ∧
        s'.opened = some (routeApp react path handlers, {}) ∧
        s'.log.bytes = (answerHead cfg sha1 r).text) := by
  have hkey := noSpace_generateKey r
  have hup := isWsUpgrade_upgradeRequest host path (generateKey r)
  have hvalue := getHeaderValue_upgradeRequest host path (generateKey r)
  have hpath := path_upgradeRequest host (generateKey r) hargs.noQuery
  have hne := generateKey_ne_nil hargs.length_eq
  obtain ⟨⟨req, socket⟩, hread, hstep⟩ := Option.bind_eq_some_iff.mp hstep
  rw [← wire_connectWire hargs.noLf hargs.isWord hkey] at hbytes
  obtain ⟨rfl, htoServer, hsocket⟩ := doRead_wire_arriving _ hbytes hread
  rw [value_connectWire hargs.noLf hargs.isWord hkey] at hstep
  set x : Exchange := ⟨upgradeRequest host path (generateKey r), resp, os⟩ with hx
  obtain ⟨log, hlog', hstep⟩ := Option.bind_eq_some_iff.mp hstep
  rw [hlog, step_fresh] at hlog'
  have hended : log.ended = true := by
    rw [← Option.some.inj hlog']
    exact decide_eq_true (result_serve_upgrade _ hup)
  have hbytes' : log.bytes = (answer cfg sha1 x).flatMap Write.sent := by
    rw [← Option.some.inj hlog']
    show List.flatMap Write.sent ([(serve (withSha1 cfg sha1) x).out].flatten) = _
    rw [List.flatten_singleton]
    rfl
  cases hfind : cfg.findWs path with
  | none =>
    rw [← hpath] at hfind
    have hupgraded : processSessionWs (withSha1 cfg sha1) x = none := by
      unfold processSessionWs
      split_ifs
      · exact hfind
      · rfl
    rw [hupgraded] at hstep
    obtain rfl := Option.some.inj hstep
    refine ⟨rfl, rfl, hended, Or.inl ⟨rfl, rfl, ?_⟩⟩
    rw [← answer_noRoute cfg sha1 x hup hfind hok]
    exact hbytes'
  | some handlers =>
    rw [← hpath] at hfind
    have hkeyNe : x.req.getHeaderValue (bytes "Sec-WebSocket-Key") ≠ [] := by
      rw [hx, hvalue]
      exact hne
    have hupgraded : processSessionWs (withSha1 cfg sha1) x = some handlers := by
      unfold processSessionWs
      rw [if_pos ⟨hup, hkeyNe, result_serve_route (withSha1 cfg sha1) hup hfind hkeyNe hok⟩]
      exact hfind
    rw [hupgraded] at hstep
    obtain rfl := Option.some.inj hstep
    refine ⟨rfl, rfl, hended, Or.inr ⟨handlers, rfl, ?_, ?_⟩⟩
    · show some (routeApp react x.req.path handlers, openDialogue socket s.toServer) = _
      rw [hpath, htoServer, openDialogue, hsocket]
    · refine hbytes'.trans ?_
      have hroute : cfg.findWs x.req.path ≠ none := by
        rw [hfind]
        exact Option.some_ne_none _
      rw [answer_route cfg sha1 x hup hroute hvalue hne hok, List.flatMap_singleton]
      rfl

/-! ### The invariant -/

/-- **How far the handshake is.** -/
inductive Inv (cfg : SessionConfig) (sha1 : Sha1) (react : Bytes → List Callback → List Call)
    (host path r : Bytes) (s : WsSession) : Prop
  /-- The server has not read the request. -/
  | asking (hbytes : s.socket.unread ++ s.toServer = connectRequest host path (generateKey r))
      (hlog : s.log = {}) (hopened : s.opened = none) (harrived : s.arrived = [])
      (hpoint : s.point = .reading)
  | refused (later : Bytes) (hroute : cfg.findWs path = none) (hended : s.log.ended = true)
      (hlog : s.log.bytes = noRoute.toStringFull cfg.order) (hopened : s.opened = none)
      (harrived : s.arrived.unread ++ later = s.log.bytes) (hpoint : s.point ≠ .returned)
  /-- The client has not read the answer; there can be frames behind it. -/
  | opening (handlers : WsHandlers) (d : Dialogue) (later : Bytes)
      (hroute : cfg.findWs path = some handlers) (hended : s.log.ended = true)
      (hlog : s.log.bytes = (answerHead cfg sha1 r).text)
      (hopened : s.opened = some (routeApp react path handlers, d))
      (hclient : d.client = {} ∧ d.arrived = 0)
      (harrived : s.arrived.unread ++ later = s.log.bytes ++ d.handed.flatten)
      (hpoint : s.point = .reading)
  | talking (handlers : WsHandlers) (d : Dialogue) (hroute : cfg.findWs path = some handlers)
      (hended : s.log.ended = true) (hopened : s.opened = some (routeApp react path handlers, d))
      (hpoint : s.point = .returned)

theorem inv_start : (start host path (generateKey r)).Inv cfg sha1 react host path r :=
  .asking rfl rfl rfl rfl rfl

/-- The application is that of the route. -/
theorem Inv.app_eq (h : s.Inv cfg sha1 react host path r) {app : App} {d : Dialogue}
    (hopened : s.opened = some (app, d)) : ∃ handlers, app = routeApp react path handlers := by
  cases h with
  | asking hbytes hlog hnone harrived hpoint =>
    rw [hnone] at hopened
    cases hopened
  | refused later hroute hended hlog hnone harrived hpoint =>
    rw [hnone] at hopened
    cases hopened
  | opening handlers d' later hroute hended hlog hopened' hclient harrived hpoint =>
    rw [hopened'] at hopened
    exact ⟨handlers, (Prod.mk.inj (Option.some.inj hopened)).1.symm⟩
  | talking handlers d' hroute hended hopened' hpoint =>
    rw [hopened'] at hopened
    exact ⟨handlers, (Prod.mk.inj (Option.some.inj hopened)).1.symm⟩

theorem stream_of_none (h : s.opened = none) : s.stream = s.log.bytes := by
  unfold stream
  rw [h]
  exact List.append_nil _

theorem stream_of_some {app : App} {d : Dialogue} (h : s.opened = some (app, d)) :
    s.stream = s.log.bytes ++ d.handed.flatten := by
  unfold stream
  rw [h]
  rfl

/-- What has been read and what arrives with the next chunk. -/
theorem arrive_chunk {arrived : Socket} {later whole : Bytes} (h : arrived.unread ++ later = whole)
    (n : ℕ) : Socket.unread (arrived ++ [(whole.drop arrived.unread.length).take n])
      ++ later.drop n = whole := by
  have hleft : whole.drop arrived.unread.length = later := by
    rw [← h, List.drop_left]
  rw [hleft, unread_concat, List.append_assoc, List.take_append_drop]
  exact h

/-- What a step can do; `step_pass` says what a pass does. -/
inductive Stepped (cfg : SessionConfig) (react : Bytes → List Callback → List Call)
    (s : WsSession) : Event → WsSession → Prop
  | toServer (n : ℕ) :
      Stepped cfg react s (.toServer n) { s with
        toServer := s.toServer.drop n
        socket := s.socket ++ [s.toServer.take n] }
  | pass (resp : Option Response) (os : Outcomes) (s' : WsSession)
      (hended : s.log.ended = false) (hpass : s.step cfg react (.pass resp os) = some s') :
      Stepped cfg react s (.pass resp os) s'
  | toConnect (n : ℕ) (hn : 0 < n) (hle : n ≤ (s.stream.drop s.arrived.unread.length).length) :
      Stepped cfg react s (.toConnect n) { s with
        arrived := s.arrived ++ [(s.stream.drop s.arrived.unread.length).take n] }
  | throws (hreading : s.point = .reading) (hread : (readHttpHeaders s.arrived).isSome)
      (hconnect : connect s.arrived = none) :
      Stepped cfg react s .connectEnds { s with point := .threw }
  | returns (rest : Socket) (hreading : s.point = .reading)
      (hread : (readHttpHeaders s.arrived).isSome) (hconnect : connect s.arrived = some rest) :
      Stepped cfg react s .connectEnds { s with
        point := .returned
        opened := s.opened.map fun (app, d) => (app, s.clientReads rest d) }
  | dialogue (e : Dialogue.Event) (app : App) (d d' : Dialogue)
      (hopened : s.opened = some (app, d)) (hd : d.step app e = some d')
      (hready : s.point = .reading → e.ofClient = false) :
      Stepped cfg react s (.dialogue e) { s with opened := some (app, d') }

/-- A session that has ended makes no pass. -/
theorem ended_of_pass {resp : Option Response} {os : Outcomes}
    (hstep : s.step cfg react (.pass resp os) = some s') : s.log.ended = false := by
  obtain ⟨p, -, hstep⟩ := Option.bind_eq_some_iff.mp hstep
  obtain ⟨log, hlog, -⟩ := Option.bind_eq_some_iff.mp hstep
  rw [SessionLog.step] at hlog
  split_ifs at hlog with hended
  exact Bool.eq_false_iff.mpr hended

/-- **Every step** is one of these. -/
theorem stepped_of_step {e : Event} (hstep : s.step cfg react e = some s') :
    Stepped cfg react s e s' := by
  cases e with
  | toServer n =>
    rw [step] at hstep
    split_ifs at hstep
    obtain rfl := Option.some.inj hstep
    exact .toServer n
  | pass resp os => exact .pass resp os s' (ended_of_pass hstep) hstep
  | toConnect n =>
    rw [step] at hstep
    split_ifs at hstep with hn
    obtain rfl := Option.some.inj hstep
    exact .toConnect n hn.2.1 hn.2.2
  | connectEnds =>
    rw [step] at hstep
    split_ifs at hstep with hready
    cases hconnect : connect s.arrived with
    | none =>
      rw [hconnect] at hstep
      obtain rfl := Option.some.inj hstep
      exact .throws hready.1 hready.2 hconnect
    | some rest =>
      rw [hconnect] at hstep
      obtain rfl := Option.some.inj hstep
      exact .returns rest hready.1 hready.2 hconnect
  | dialogue e =>
    rw [step] at hstep
    split_ifs at hstep with hready
    obtain ⟨⟨app, d⟩, hopened, hstep⟩ := Option.bind_eq_some_iff.mp hstep
    obtain ⟨d', hd, hstep⟩ := Option.bind_eq_some_iff.mp hstep
    obtain rfl := Option.some.inj hstep
    refine .dialogue e app d d' hopened hd fun hreading => ?_
    rw [← Bool.not_eq_true]
    intro hof
    rw [hready hof] at hreading
    cases hreading

/-- What the server does alone leaves the client where it is. -/
theorem kept_of_not_ofClient {app : App} {d d' : Dialogue} {e : Dialogue.Event}
    (hof : e.ofClient = false) (hstep : d.step app e = some d') :
    d'.client = d.client ∧ d'.arrived = d.arrived ∧ ∃ more, d'.handed = d.handed ++ more := by
  cases e with
  | toServer n =>
    rw [Dialogue.step] at hstep
    split_ifs at hstep
    obtain rfl := Option.some.inj hstep
    exact ⟨rfl, rfl, [], (List.append_nil _).symm⟩
  | server e =>
    obtain ⟨server, -, rfl⟩ := Option.map_eq_some_iff.mp hstep
    exact ⟨rfl, rfl, _, rfl⟩
  | _ => cases hof

/-- The answer is read when its head is there. -/
theorem connect_answerHead {f later : Bytes} {arrived : Socket}
    (h : arrived.unread ++ later = (answerHead cfg sha1 r).text ++ f)
    (hsome : (readHttpHeaders arrived).isSome) :
    ∃ rest, connect arrived = some rest ∧
      (answerHead cfg sha1 r).text.length ≤ arrived.unread.length ∧
      (CutIn arrived (answerHead cfg sha1 r).text.length (answerHead cfg sha1 r).text.length →
        arrived.unread = (answerHead cfg sha1 r).text ++ rest.unread) := by
  obtain ⟨⟨response, rest⟩, hread⟩ := Option.isSome_iff_exists.mp hsome
  have hkey : 0x0A ∉ wsAcceptKey sha1 (generateKey r) := noLf_of_noSpace noSpace_base64Encode
  obtain ⟨hle, hcut⟩ := readHttpHeaders_arriving (noLf_acceptHead cfg.order hkey)
    (startLine_acceptHead_ne_nil cfg.order _) h hread
  have hwhole : Socket.unread (arrived ++ [later]) = (answerHead cfg sha1 r).text ++ f := by
    rw [unread_concat]
    exact h
  have haccepts : (connect (arrived ++ [later])).isSome :=
    connect_acceptHead cfg.order hkey hwhole
  rw [connect_append hread, Option.isSome_map] at haccepts
  exact ⟨rest, (connect_eq_some_iff hread haccepts).mpr rfl, hle, hcut⟩

/-- A refusal is read, and not accepted. -/
theorem connect_refusal {later : Bytes} {arrived : Socket} {o : HeaderOrder}
    (h : arrived.unread ++ later = noRoute.toStringFull o)
    (hsome : (readHttpHeaders arrived).isSome) : connect arrived = none := by
  obtain ⟨⟨response, rest⟩, hread⟩ := Option.isSome_iff_exists.mp hsome
  have hwhole : Socket.unread (arrived ++ [later]) = noRoute.toStringFull o ++ [] := by
    rw [unread_concat, List.append_nil]
    exact h
  have hrefuses := connect_noRoute o hwhole
  rw [connect_append hread, Option.map_eq_none_iff] at hrefuses
  exact hrefuses

/-- **A pass** happens at the beginning, and answers the request. -/
theorem Inv.pass (h : s.Inv cfg sha1 react host path r) (hargs : ConnectArgs host path r)
    {resp : Option Response} {os : Outcomes} (hended : s.log.ended = false) (hok : os.write = none)
    (hstep : s.step (withSha1 cfg sha1) react (.pass resp os) = some s') :
    s'.arrived = [] ∧ s'.point = .reading ∧ s'.log.ended = true ∧
      ((cfg.findWs path = none ∧ s'.opened = none ∧
        s'.log.bytes = noRoute.toStringFull cfg.order) ∨
      ∃ handlers, cfg.findWs path = some handlers ∧
        s'.opened = some (routeApp react path handlers, {}) ∧
        s'.log.bytes = (answerHead cfg sha1 r).text) := by
  cases h with
  | asking hbytes hlog hopened harrived hpoint =>
    have hpass := step_pass hargs hbytes hlog hok hstep
    rw [harrived, hpoint, hopened] at hpass
    exact hpass
  | refused later hroute hended' hlog hopened harrived hpoint =>
    rw [hended'] at hended
    cases hended
  | opening handlers d later hroute hended' hlog hopened hclient harrived hpoint =>
    rw [hended'] at hended
    cases hended
  | talking handlers d hroute hended' hopened hpoint =>
    rw [hended'] at hended
    cases hended

/-- **Every step.** -/
theorem Inv.step (h : s.Inv cfg sha1 react host path r) (hargs : ConnectArgs host path r)
    {e : Event} (hwrite : ∀ resp os, e = .pass resp os → os.write = none)
    (hstep : s.step (withSha1 cfg sha1) react e = some s') :
    s'.Inv cfg sha1 react host path r := by
  cases stepped_of_step hstep with
  | toServer n =>
    cases h with
    | asking hbytes hlog hopened harrived hpoint =>
      refine .asking ?_ hlog hopened harrived hpoint
      show Socket.unread (s.socket ++ [s.toServer.take n]) ++ s.toServer.drop n = _
      rw [unread_concat, List.append_assoc, List.take_append_drop]
      exact hbytes
    | refused later hroute hended hlog hopened harrived hpoint =>
      exact .refused later hroute hended hlog hopened harrived hpoint
    | opening handlers d later hroute hended hlog hopened hclient harrived hpoint =>
      exact .opening handlers d later hroute hended hlog hopened hclient harrived hpoint
    | talking handlers d hroute hended hopened hpoint =>
      exact .talking handlers d hroute hended hopened hpoint
  | pass resp os _ hended hpass =>
    obtain ⟨harrived, hpoint, hended', hresult⟩ := h.pass hargs hended (hwrite resp os rfl) hpass
    rcases hresult with ⟨hroute, hopened, hlog⟩ | ⟨handlers, hroute, hopened, hlog⟩
    · refine .refused s'.log.bytes hroute hended' hlog hopened ?_ ?_
      · rw [harrived]
        rfl
      · rw [hpoint]
        decide
    · refine .opening handlers _ s'.log.bytes hroute hended' hlog hopened ⟨rfl, rfl⟩ ?_ hpoint
      rw [harrived]
      exact (List.append_nil _).symm
  | toConnect n hn hle =>
    cases h with
    | asking hbytes hlog hopened harrived hpoint =>
      have hnil : (s.stream.drop s.arrived.unread.length).length = 0 := by
        rw [stream_of_none hopened, hlog, List.length_drop]
        exact Nat.zero_sub _
      omega
    | refused later hroute hended hlog hopened harrived hpoint =>
      refine .refused (later.drop n) hroute hended hlog hopened ?_ hpoint
      rw [stream_of_none hopened]
      exact arrive_chunk harrived n
    | opening handlers d later hroute hended hlog hopened hclient harrived hpoint =>
      refine .opening handlers d (later.drop n) hroute hended hlog hopened hclient ?_ hpoint
      rw [stream_of_some hopened]
      exact arrive_chunk harrived n
    | talking handlers d hroute hended hopened hpoint =>
      exact .talking handlers d hroute hended hopened hpoint
  | throws hreading hread hconnect =>
    cases h with
    | asking hbytes hlog hopened harrived hpoint =>
      rw [harrived] at hread
      exact absurd hread (by decide)
    | refused later hroute hended hlog hopened harrived hpoint =>
      refine .refused later hroute hended hlog hopened harrived ?_
      show ConnectPoint.threw ≠ .returned
      decide
    | opening handlers d later hroute hended hlog hopened hclient harrived hpoint =>
      rw [hlog] at harrived
      obtain ⟨rest, hsome, -, -⟩ := connect_answerHead harrived hread
      rw [hconnect] at hsome
      cases hsome
    | talking handlers d hroute hended hopened hpoint =>
      rw [hpoint] at hreading
      cases hreading
  | returns rest hreading hread hconnect =>
    cases h with
    | asking hbytes hlog hopened harrived hpoint =>
      rw [harrived] at hread
      exact absurd hread (by decide)
    | refused later hroute hended hlog hopened harrived hpoint =>
      rw [hlog] at harrived
      rw [connect_refusal harrived hread] at hconnect
      cases hconnect
    | opening handlers d later hroute hended hlog hopened hclient harrived hpoint =>
      refine .talking handlers (s.clientReads rest d) hroute hended ?_ rfl
      rw [hopened]
      rfl
    | talking handlers d hroute hended hopened hpoint =>
      rw [hpoint] at hreading
      cases hreading
  | dialogue e app d d' hopened' hd hready =>
    cases h with
    | asking hbytes hlog hopened harrived hpoint =>
      rw [hopened] at hopened'
      cases hopened'
    | refused later hroute hended hlog hopened harrived hpoint =>
      rw [hopened] at hopened'
      cases hopened'
    | opening handlers d₀ later hroute hended hlog hopened hclient harrived hpoint =>
      rw [hopened] at hopened'
      obtain ⟨rfl, rfl⟩ := Prod.mk.inj (Option.some.inj hopened')
      obtain ⟨hsame, harrivedD, more, hhanded⟩ := kept_of_not_ofClient (hready hpoint) hd
      refine .opening handlers d' (later ++ more.flatten) hroute hended hlog rfl ?_ ?_ hpoint
      · rw [hsame, harrivedD]
        exact hclient
      · rw [hhanded, List.flatten_append, ← List.append_assoc, ← List.append_assoc, harrived]
    | talking handlers d₀ hroute hended hopened hpoint =>
      rw [hopened] at hopened'
      obtain ⟨rfl, rfl⟩ := Prod.mk.inj (Option.some.inj hopened')
      exact .talking handlers d' hroute hended rfl hpoint

/-! ### The dialogue -/

/-- When `connect` returns, it has read no further than the header block. -/
def ReadsHeadersOnly (s : WsSession) (e : Event) : Prop :=
  e = .connectEnds → s.point = .reading → (connect s.arrived).isSome →
    CutIn s.arrived s.log.bytes.length s.log.bytes.length

/-- The two ends are where steps with `p` take a dialogue. -/
def Reached (p : Dialogue.Event → Prop) (s : WsSession) : Prop :=
  ∀ app d, s.opened = some (app, d) →
    Leads (Dialogue.step app) (fun _ e => p e) {} d

/-- **What `connect` has left** is what has arrived of the frames. -/
theorem leads_clientReads {p : Dialogue.Event → Prop} {app : App} {d : Dialogue} {rest : Socket}
    {later : Bytes} (hp : ∀ n, p (.toClient n)) (hclient : d.client = {} ∧ d.arrived = 0)
    (harrived : s.arrived.unread = s.log.bytes ++ rest.unread)
    (hstream : rest.unread ++ later = d.handed.flatten) :
    Leads (Dialogue.step app) (fun _ e => p e) d (s.clientReads rest d) := by
  have hlen : s.arrived.unread.length - s.log.bytes.length = rest.unread.length := by
    rw [harrived, List.length_append]
    omega
  have hreads : s.clientReads rest d
      = { d with arrived := rest.unread.length, client := { unread := rest.unread } } := by
    unfold clientReads
    rw [hlen, hclient.1]
  rw [hreads]
  by_cases hnil : rest.unread = []
  · have hsame : d
        = { d with arrived := rest.unread.length, client := { unread := rest.unread } } := by
      rw [hnil, List.length_nil, ← hclient.2]
      show d = { d with client := {} }
      rw [← hclient.1]
    rw [← hsame]
    exact Leads.refl d
  · apply Leads.single (e := .toClient rest.unread.length) _ (hp _)
    have hguard : 0 < rest.unread.length ∧
        d.arrived + rest.unread.length ≤ d.handed.flatten.length := by
      rw [hclient.2, ← hstream, List.length_append]
      exact ⟨List.length_pos_of_ne_nil hnil, by omega⟩
    have htake : (d.handed.flatten.drop d.arrived).take rest.unread.length = rest.unread := by
      rw [hclient.2, List.drop_zero, ← hstream, List.take_left]
    rw [Dialogue.step, if_pos hguard, htake, hclient.1, hclient.2, Nat.zero_add]
    rfl

/-- **Every step** in which `connect` reads no further. -/
theorem Reached.step {p : Dialogue.Event → Prop} (hreached : s.Reached p)
    (h : s.Inv cfg sha1 react host path r) (hargs : ConnectArgs host path r)
    {e : Event} (hwrite : ∀ resp os, e = .pass resp os → os.write = none)
    (hcut : s.ReadsHeadersOnly e) (hp : ∀ e', e = .dialogue e' → p e')
    (hclient : ∀ n, p (.toClient n))
    (hstep : s.step (withSha1 cfg sha1) react e = some s') : s'.Reached p := by
  cases stepped_of_step hstep with
  | toServer n => exact hreached
  | pass resp os _ hended hpass =>
    obtain ⟨-, -, -, hresult⟩ := h.pass hargs hended (hwrite resp os rfl) hpass
    intro app d hopened'
    rcases hresult with ⟨-, hnone, -⟩ | ⟨handlers, -, hstart, -⟩
    · rw [hnone] at hopened'
      cases hopened'
    · rw [hstart] at hopened'
      obtain ⟨rfl, rfl⟩ := Prod.mk.inj (Option.some.inj hopened')
      exact Leads.refl _
  | toConnect n hn hle => exact hreached
  | throws hreading hread hconnect => exact hreached
  | returns rest hreading hread hconnect =>
    intro app d' hopened'
    obtain ⟨⟨app₀, d⟩, hopened, heq⟩ := Option.map_eq_some_iff.mp hopened'
    obtain ⟨rfl, rfl⟩ := Prod.mk.inj heq
    apply (hreached app₀ d hopened).trans
    cases h with
    | asking hbytes hlog hnone harrived hpoint =>
      rw [hnone] at hopened
      cases hopened
    | refused later hroute hended hlog hnone harrived hpoint =>
      rw [hnone] at hopened
      cases hopened
    | opening handlers d₀ later hroute hended hlog hopened₀ hidle harrived hpoint =>
      rw [hopened₀] at hopened
      obtain ⟨rfl, rfl⟩ := Prod.mk.inj (Option.some.inj hopened)
      have hcut' := hcut rfl hpoint (by rw [hconnect]; rfl)
      rw [hlog] at harrived hcut'
      obtain ⟨rest', hrest', -, hleft⟩ := connect_answerHead harrived hread
      rw [hconnect] at hrest'
      obtain rfl := Option.some.inj hrest'
      have hsplit := hleft hcut'
      rw [hsplit, List.append_assoc] at harrived
      exact leads_clientReads hclient hidle (by rw [hlog]; exact hsplit)
        (List.append_cancel_left harrived)
    | talking handlers d₀ hroute hended hopened₀ hpoint =>
      rw [hpoint] at hreading
      cases hreading
  | dialogue e app d d' hopened hd hready =>
    intro app' d'' hopened'
    obtain ⟨rfl, rfl⟩ := Prod.mk.inj (Option.some.inj hopened')
    exact (hreached app d hopened).trans (Leads.single hd (hp e rfl))

/-- The runs of a dialogue, with the steps that a session has taken and bytes that arrive. -/
def BecomesDialogue (cfg : SessionConfig) (react : Bytes → List Callback → List Call)
    (path : Bytes) (es : List Event) (s : WsSession) : Prop :=
  ∃ handlers d es', cfg.findWs path = some handlers ∧
    s.opened = some (routeApp react path handlers, d) ∧
    run (Dialogue.step (routeApp react path handlers)) {} es' = some d ∧
    ∀ e ∈ es', .dialogue e ∈ es ∨ ∃ n, e = .toClient n

variable {es : List Event}

theorem becomesDialogue (hargs : ConnectArgs host path r)
    (hwrite : ∀ resp os, .pass resp os ∈ es → os.write = none)
    (hrun : run (step (withSha1 cfg sha1) react) (start host path (generateKey r)) es = some s)
    (hcut : Guarded (step (withSha1 cfg sha1) react) ReadsHeadersOnly
      (start host path (generateKey r)) es)
    (hreturned : s.point = .returned) : BecomesDialogue cfg react path es s := by
  let p : Dialogue.Event → Prop := fun e => .dialogue e ∈ es ∨ ∃ n, e = .toClient n
  have hmem := (guarded_iff_forall (p := (· ∈ es)) hrun).mpr fun _ he => he
  have hstep : ∀ {s e s'}, WsSession.Inv cfg sha1 react host path r s ∧ Reached p s →
      ReadsHeadersOnly s e ∧ e ∈ es → step (withSha1 cfg sha1) react s e = some s' →
        WsSession.Inv cfg sha1 react host path r s' ∧ Reached p s' := by
    rintro s e s' ⟨h, hreached⟩ ⟨hone, he⟩ hs
    have hok : ∀ resp os, e = .pass resp os → os.write = none := by
      rintro resp os rfl
      exact hwrite resp os he
    refine ⟨h.step hargs hok hs, hreached.step h hargs hok hone ?_ ?_ hs⟩
    · rintro e' rfl
      exact Or.inl he
    · exact fun n => Or.inr ⟨n, rfl⟩
  have hstart : Reached p (start host path (generateKey r)) := fun _ _ hopened => by cases hopened
  obtain ⟨h, hreached⟩ := guarded_invariant hstep ⟨inv_start, hstart⟩ (hcut.and hmem) hrun
  cases h with
  | asking hbytes hlog hopened harrived hpoint =>
    rw [hpoint] at hreturned
    cases hreturned
  | refused later hroute hended hlog hopened harrived hpoint => exact absurd hreturned hpoint
  | opening handlers d later hroute hended hlog hopened hclient harrived hpoint =>
    rw [hpoint] at hreturned
    cases hreturned
  | talking handlers d hroute hended hopened hpoint =>
    obtain ⟨es', hrun', hguard⟩ := hreached _ d hopened
    exact ⟨handlers, d, es', hroute, hopened, hrun', (guarded_iff_forall hrun').mp hguard⟩

/-! ### Servers that wait to be spoken to -/

/-- The server has done nothing. -/
structure Quiet (d : Dialogue) : Prop where
  handed : d.handed = []
  toServer : d.toServer = []
  unread : d.server.unread = []
  headerRead : d.server.headerRead = false
  writers : d.server.conn.writers = []
  tasks : d.server.conn.tasks = []
  unopened : d.server.conn.readLoop = .notStarted → d.server.conn.trace = []
  notGot : ∀ f, d.server.conn.readLoop ≠ .got f

theorem quiet_empty : Quiet {} :=
  ⟨rfl, rfl, rfl, rfl, rfl, rfl, fun _ => rfl, fun f hno => by cases hno⟩

/-- `on_open` spawns nothing if it calls nothing. -/
theorem tasks_start {app : App} (hquiet : app.react [.onOpen] = []) {c : Conn}
    (htrace : c.trace = []) : (c.start app).tasks = c.tasks := by
  unfold Conn.start
  dsimp only
  split_ifs
  · unfold Conn.callback
    dsimp only
    rw [htrace, List.nil_append, hquiet]
    rfl
  · rfl

/-- Alone, and without calls from outside, it goes on doing nothing; its read can fail. -/
theorem Quiet.step {app : App} (hquiet : app.react [.onOpen] = []) {d d' : Dialogue} (h : Quiet d)
    {e : Dialogue.Event} (hof : e.ofClient = false) (hcall : ∀ k, e ≠ .server (.conn (.call k)))
    (hstep : d.step app e = some d') : Quiet d' := by
  cases e with
  | toServer n =>
    rw [Dialogue.step] at hstep
    split_ifs at hstep with hn
    rw [h.toServer, List.length_nil] at hn
    omega
  | server e =>
    obtain ⟨server, hserver, rfl⟩ := Option.map_eq_some_iff.mp hstep
    cases e with
    | header =>
      rw [ReadStream.step, h.unread] at hserver
      split_ifs at hserver
      cases hserver
    | payload =>
      rw [ReadStream.step, h.headerRead] at hserver
      cases hserver
    | conn e =>
      obtain ⟨c, -, hconn, rfl⟩ := ReadStream.step_conn_eq_some hserver
      have hnoWriter : ∀ k : ℕ, d.server.conn.writers[k]? = none := by
        intro k
        rw [h.writers]
        rfl
      have hnoWrite : ∀ n : ℕ, d.handed ++ (List.drop n d.server.conn.writers).map Writer.buf
          = [] := by
        intro n
        rw [h.handed, h.writers, List.drop_nil]
        rfl
      cases Conn.stepped_of_step hconn with
      | start hnot =>
        have hwriters := (Conn.sameQueue_start app d.server.conn).writers
        refine ⟨?_, h.toServer, h.unread, h.headerRead, hwriters.trans h.writers,
          (tasks_start hquiet (h.unopened hnot)).trans h.tasks,
          fun hno => absurd hno (Conn.started_start app _), fun f hgot => ?_⟩
        · show d.handed ++ (List.drop _ (d.server.conn.start app).writers).map Writer.buf = []
          rw [hwriters]
          exact hnoWrite _
        · rcases Conn.readLoop_start app d.server.conn with hloop | hloop
          · cases hloop.symm.trans hgot
          · cases hloop.symm.trans hgot
      | call k => exact absurd rfl (hcall k)
      | recv f hreading hopen => cases hserver
      | readError hreading =>
        exact ⟨hnoWrite _, h.toServer, h.unread, h.headerRead, h.writers, h.tasks,
          (fun hno => by cases hno), fun f hno => by cases hno⟩
      | resume f hgot => exact absurd hgot (h.notGot f)
      | runTask t tasks htasks =>
        rw [h.tasks] at htasks
        cases htasks
      | writeLast k w hw hq =>
        rw [hnoWriter] at hw
        cases hw
      | writeNext k w buf queue hw hq =>
        rw [hnoWriter] at hw
        cases hw
      | writeFail k w hw =>
        rw [hnoWriter] at hw
        cases hw
  | _ => cases hof

/-- As long as `connect` reads. -/
def Silent (s : WsSession) : Prop :=
  s.point = .reading → ∀ app d, s.opened = some (app, d) → Quiet d

/-- Nobody calls the public functions of the server's `WebSocket` before `connect` has ended. -/
def NoCallYet (s : WsSession) (e : Event) : Prop :=
  ∀ k, e = .dialogue (.server (.conn (.call k))) → s.point ≠ .reading

/-- **Every step.** -/
theorem Silent.step (hsilent : s.Silent) (h : s.Inv cfg sha1 react host path r)
    (hargs : ConnectArgs host path r) (hquiet : react path [.onOpen] = []) {e : Event}
    (hwrite : ∀ resp os, e = .pass resp os → os.write = none) (hcall : s.NoCallYet e)
    (hstep : s.step (withSha1 cfg sha1) react e = some s') : s'.Silent := by
  intro hreading' app d₁ hopened'
  cases stepped_of_step hstep with
  | toServer n => exact hsilent hreading' app d₁ hopened'
  | pass resp os _ hended hpass =>
    obtain ⟨-, -, -, hresult⟩ := h.pass hargs hended (hwrite resp os rfl) hpass
    rcases hresult with ⟨-, hnone, -⟩ | ⟨handlers, -, hstart, -⟩
    · rw [hnone] at hopened'
      cases hopened'
    · rw [hstart] at hopened'
      obtain ⟨rfl, rfl⟩ := Prod.mk.inj (Option.some.inj hopened')
      exact quiet_empty
  | toConnect n hn hle => exact hsilent hreading' app d₁ hopened'
  | throws hreading hread hconnect => cases hreading'
  | returns rest hreading hread hconnect => cases hreading'
  | dialogue e app₀ d d' hopened hd hready =>
    obtain ⟨rfl, rfl⟩ := Prod.mk.inj (Option.some.inj hopened')
    have hreading : s.point = .reading := hreading'
    obtain ⟨handlers, rfl⟩ := h.app_eq hopened
    refine (hsilent hreading _ d hopened).step hquiet (hready hreading) ?_ hd
    rintro k rfl
    exact hcall k rfl hreading

/-- There is nothing behind the header block. -/
theorem Silent.readsHeadersOnly (hsilent : s.Silent) (h : s.Inv cfg sha1 react host path r)
    (e : Event) : s.ReadsHeadersOnly e := by
  rintro - hreading hsome
  have hread : (readHttpHeaders s.arrived).isSome := by
    unfold connect at hsome
    cases hheaders : readHttpHeaders s.arrived with
    | none =>
      rw [hheaders] at hsome
      cases hsome
    | some p => rfl
  cases h with
  | asking hbytes hlog hopened harrived hpoint =>
    rw [harrived] at hread
    exact absurd hread (by decide)
  | refused later hroute hended hlog hopened harrived hpoint =>
    rw [hlog] at harrived
    rw [connect_refusal harrived hread] at hsome
    cases hsome
  | opening handlers d later hroute hended hlog hopened hclient harrived hpoint =>
    rw [(hsilent hreading _ d hopened).handed, hlog, List.flatten_nil] at harrived
    obtain ⟨rest, -, hle, -⟩ := connect_answerHead harrived hread
    have hlen := congrArg List.length harrived
    rw [List.length_append, List.length_append, List.length_nil] at hlen
    rw [hlog]
    refine ⟨s.arrived, [], (List.append_nil _).symm, hle, ?_⟩
    show s.arrived.unread.length ≤ _
    omega
  | talking handlers d hroute hended hopened hpoint =>
    rw [hpoint] at hreading
    cases hreading

theorem guarded_readsHeadersOnly (hargs : ConnectArgs host path r)
    (hquiet : react path [.onOpen] = [])
    (hwrite : ∀ resp os, .pass resp os ∈ es → os.write = none)
    (hrun : run (step (withSha1 cfg sha1) react) (start host path (generateKey r)) es = some s)
    (hcalls : Guarded (step (withSha1 cfg sha1) react) NoCallYet
      (start host path (generateKey r)) es) :
    Guarded (step (withSha1 cfg sha1) react) ReadsHeadersOnly
      (start host path (generateKey r)) es := by
  have hmem := (guarded_iff_forall (p := (· ∈ es)) hrun).mpr fun _ he => he
  have hstep : ∀ {s e s'}, WsSession.Inv cfg sha1 react host path r s ∧ Silent s →
      NoCallYet s e ∧ e ∈ es → step (withSha1 cfg sha1) react s e = some s' →
        WsSession.Inv cfg sha1 react host path r s' ∧ Silent s' := by
    rintro s e s' ⟨h, hsilent⟩ ⟨hcall, he⟩ hs
    have hok : ∀ resp os, e = .pass resp os → os.write = none := by
      rintro resp os rfl
      exact hwrite resp os he
    exact ⟨h.step hargs hok hs, hsilent.step h hargs hquiet hok hcall hs⟩
  have hstart : Silent (start host path (generateKey r)) := fun _ _ _ hopened => by cases hopened
  exact guarded_of_invariant hstep (fun h _ => h.2.readsHeadersOnly h.1 _) ⟨inv_start, hstart⟩
    (hcalls.and hmem)

/-! ### Every run -/

/-- **From the handshake to the frames**: when `connect` has returned, and has read no further than
the header block, there is a route for its path, and the client and the `WebSocket` of the route
are where a `Dialogue` takes them, by the steps they have taken and bytes that arrive. -/
theorem dialogue_of_run (cfg : SessionConfig) (sha1 : Sha1)
    (react : Bytes → List Callback → List Call) {host path r : Bytes}
    (hargs : ConnectArgs host path r) (es : List Event) {s : WsSession}
    (hwrite : ∀ resp os, .pass resp os ∈ es → os.write = none)
    (hrun : run (step (withSha1 cfg sha1) react) (start host path (generateKey r)) es = some s)
    (hcut : Guarded (step (withSha1 cfg sha1) react) ReadsHeadersOnly
      (start host path (generateKey r)) es)
    (hreturned : s.point = .returned) : BecomesDialogue cfg react path es s :=
  becomesDialogue hargs hwrite hrun hcut hreturned

/-- A connection whose handshake comes in parts, and the client's first message. -/
def chatRun : List Event :=
  [.toServer 100, .toServer 52, .pass none {}, .toConnect 20, .dialogue (.server (.conn .start)),
    .toConnect 109, .connectEnds,
    .dialogue (.call (.sendText (Vector.replicate 4 1) (bytes "hi"))), .dialogue (.toServer 8),
    .dialogue (.server .header)]

theorem connectArgs_chat :
    ConnectArgs (bytes "localhost") (bytes "/chat") (List.replicate 16 7) where
  noLf := by decide
  isWord := by decide
  noQuery := by decide
  length_eq := rfl

theorem exists_run_chatRun : ∃ s, run (step (withSha1 routedServer zeroDigest) fun _ _ => [])
    (start (bytes "localhost") (bytes "/chat") (generateKey (List.replicate 16 7))) chatRun
      = some s ∧ s.point = .returned := by
  have hpoint : (run (step (withSha1 routedServer zeroDigest) fun _ _ => [])
      (start (bytes "localhost") (bytes "/chat") (generateKey (List.replicate 16 7))) chatRun).map
        WsSession.point = some .returned := by decide +kernel
  exact Option.map_eq_some_iff.mp hpoint

theorem write_eq_none_of_mem_chatRun (resp : Option Response) (os : Outcomes)
    (h : .pass resp os ∈ chatRun) : os.write = none := by
  simp only [chatRun, List.mem_cons, reduceCtorEq, Event.pass.injEq, List.not_mem_nil, or_false,
    false_or] at h
  rw [h.2]

theorem guarded_noCallYet_chatRun : Guarded (step (withSha1 routedServer zeroDigest) fun _ _ => [])
    NoCallYet (start (bytes "localhost") (bytes "/chat") (generateKey (List.replicate 16 7)))
      chatRun := by
  obtain ⟨s, hrun, -⟩ := exists_run_chatRun
  have hall : ∀ e ∈ chatRun, ∀ k, e ≠ .dialogue (.server (.conn (.call k))) := by
    rintro e he k rfl
    simp [chatRun] at he
  exact ((guarded_iff_forall hrun).mpr hall).mono fun s e hne k he => absurd he (hne k)

theorem dialogue_of_run_chat : ∃ s, run (step (withSha1 routedServer zeroDigest) fun _ _ => [])
    (start (bytes "localhost") (bytes "/chat") (generateKey (List.replicate 16 7))) chatRun
      = some s ∧ BecomesDialogue routedServer (fun _ _ => []) (bytes "/chat") chatRun s := by
  obtain ⟨s, hrun, hreturned⟩ := exists_run_chatRun
  exact ⟨s, hrun, dialogue_of_run routedServer zeroDigest (fun _ _ => []) connectArgs_chat chatRun
    write_eq_none_of_mem_chatRun hrun (guarded_readsHeadersOnly connectArgs_chat rfl
      write_eq_none_of_mem_chatRun hrun guarded_noCallYet_chatRun) hreturned⟩

/-- **A server that waits to be spoken to**: if `on_open` calls nothing, and nobody else does before
`connect` has ended, no byte of a frame is lost, however the bytes arrive. -/
theorem quiet_dialogue (cfg : SessionConfig) (sha1 : Sha1)
    (react : Bytes → List Callback → List Call) {host path r : Bytes}
    (hargs : ConnectArgs host path r) (hquiet : react path [.onOpen] = []) (es : List Event)
    {s : WsSession} (hwrite : ∀ resp os, .pass resp os ∈ es → os.write = none)
    (hrun : run (step (withSha1 cfg sha1) react) (start host path (generateKey r)) es = some s)
    (hcalls : Guarded (step (withSha1 cfg sha1) react) NoCallYet
      (start host path (generateKey r)) es)
    (hreturned : s.point = .returned) : BecomesDialogue cfg react path es s :=
  becomesDialogue hargs hwrite hrun
    (guarded_readsHeadersOnly hargs hquiet hwrite hrun hcalls) hreturned

theorem quiet_dialogue_chat : ∃ s, run (step (withSha1 routedServer zeroDigest) fun _ _ => [])
    (start (bytes "localhost") (bytes "/chat") (generateKey (List.replicate 16 7))) chatRun
      = some s ∧ BecomesDialogue routedServer (fun _ _ => []) (bytes "/chat") chatRun s := by
  obtain ⟨s, hrun, hreturned⟩ := exists_run_chatRun
  exact ⟨s, hrun, quiet_dialogue routedServer zeroDigest (fun _ _ => []) connectArgs_chat rfl
    chatRun write_eq_none_of_mem_chatRun hrun guarded_noCallYet_chatRun hreturned⟩

/-! ### `connect` ends -/

/-- The request can be read when it is there. -/
theorem pass_ne_none (hargs : ConnectArgs host path r)
    (hbytes : s.socket.unread = connectRequest host path (generateKey r)) (hlog : s.log = {})
    (resp : Option Response) (os : Outcomes) : s.step cfg react (.pass resp os) ≠ none := by
  have hkey := noSpace_generateKey r
  rw [← wire_connectWire hargs.noLf hargs.isWord hkey] at hbytes
  obtain ⟨rest, hread, -⟩ := doRead_wire _ hbytes
  rw [WsSession.step, hread, hlog]
  simp only [Option.bind_eq_bind, Option.bind_some, step_fresh]
  split
  · exact Option.some_ne_none _
  · exact Option.some_ne_none _

theorem toConnect_ne_none {later : Bytes} (hpoint : s.point = .reading)
    (harrived : s.arrived.unread ++ later = s.stream) (hne : later ≠ []) :
    s.step cfg react (.toConnect later.length) ≠ none := by
  have hleft : (s.stream.drop s.arrived.unread.length).length = later.length := by
    rw [← harrived, List.drop_left]
  have hready : s.point = .reading ∧ 0 < later.length ∧
      later.length ≤ (s.stream.drop s.arrived.unread.length).length :=
    ⟨hpoint, List.length_pos_of_ne_nil hne, hleft.ge⟩
  rw [WsSession.step, if_pos hready]
  exact Option.some_ne_none _

theorem connectEnds_ne_none (hpoint : s.point = .reading)
    (hread : (readHttpHeaders s.arrived).isSome) : s.step cfg react .connectEnds ≠ none := by
  rw [WsSession.step, if_pos ⟨hpoint, hread⟩]
  split
  · exact Option.some_ne_none _
  · exact Option.some_ne_none _

/-- While `connect` reads, something can happen that takes it on. -/
theorem Inv.progress (h : s.Inv cfg sha1 react host path r) (hargs : ConnectArgs host path r)
    (hpoint : s.point = .reading) :
    (∃ n, s.step (withSha1 cfg sha1) react (.toServer n) ≠ none) ∨
      (∀ resp os, s.step (withSha1 cfg sha1) react (.pass resp os) ≠ none) ∨
      (∃ n, s.step (withSha1 cfg sha1) react (.toConnect n) ≠ none) ∨
      s.step (withSha1 cfg sha1) react .connectEnds ≠ none := by
  cases h with
  | asking hbytes hlog hopened harrived _ =>
    by_cases hnil : s.toServer = []
    · right; left
      rw [hnil, List.append_nil] at hbytes
      exact pass_ne_none hargs hbytes hlog
    · left
      refine ⟨s.toServer.length, ?_⟩
      rw [WsSession.step, if_pos ⟨hopened, List.length_pos_of_ne_nil hnil, Nat.le_refl _⟩]
      exact Option.some_ne_none _
  | refused later hroute hended hlog hopened harrived _ =>
    right; right
    by_cases hnil : later = []
    · right
      rw [hnil, List.append_nil, hlog] at harrived
      obtain ⟨taken, rest, -, hread⟩ := readHttpHeaders_head (noLf_noRoute cfg.order)
        (startLine_noRoute_ne_nil cfg.order) harrived
      exact connectEnds_ne_none hpoint (by rw [hread]; rfl)
    · left
      rw [← stream_of_none hopened] at harrived
      exact ⟨later.length, toConnect_ne_none hpoint harrived hnil⟩
  | opening handlers d later hroute hended hlog hopened hclient harrived _ =>
    right; right
    by_cases hnil : later = []
    · right
      rw [hnil, List.append_nil, hlog] at harrived
      have hkey : 0x0A ∉ wsAcceptKey sha1 (generateKey r) := noLf_of_noSpace noSpace_base64Encode
      obtain ⟨taken, rest, -, hread⟩ := readHttpHeaders_head (noLf_acceptHead cfg.order hkey)
        (startLine_acceptHead_ne_nil cfg.order _) harrived
      exact connectEnds_ne_none hpoint (by rw [hread]; rfl)
    · left
      rw [← stream_of_some hopened] at harrived
      exact ⟨later.length, toConnect_ne_none hpoint harrived hnil⟩
  | talking handlers d hroute hended hopened hreturned =>
    rw [hpoint] at hreturned
    cases hreturned

/-- **What `connect` does**: it returns only if there is a route for its path and throws only if
there is none, and as long as it reads there is a step that takes it on, whatever the server sends
behind its answer and however the bytes arrive. -/
theorem connect_decides (cfg : SessionConfig) (sha1 : Sha1)
    (react : Bytes → List Callback → List Call) {host path r : Bytes}
    (hargs : ConnectArgs host path r) (es : List Event) {s : WsSession}
    (hwrite : ∀ resp os, .pass resp os ∈ es → os.write = none)
    (hrun : run (step (withSha1 cfg sha1) react) (start host path (generateKey r)) es = some s) :
    (s.point = .returned → cfg.findWs path ≠ none) ∧
      (s.point = .threw → cfg.findWs path = none) ∧
      (s.point = .reading →
        (∃ n, s.step (withSha1 cfg sha1) react (.toServer n) ≠ none) ∨
        (∀ resp os, s.step (withSha1 cfg sha1) react (.pass resp os) ≠ none) ∨
        (∃ n, s.step (withSha1 cfg sha1) react (.toConnect n) ≠ none) ∨
        s.step (withSha1 cfg sha1) react .connectEnds ≠ none) := by
  have hmem := (guarded_iff_forall (p := (· ∈ es)) hrun).mpr fun _ he => he
  have hstep : ∀ {s e s'}, WsSession.Inv cfg sha1 react host path r s → e ∈ es →
      step (withSha1 cfg sha1) react s e = some s' → WsSession.Inv cfg sha1 react host path r s' :=
    fun h he hs => h.step hargs (fun resp os heq => hwrite resp os (heq ▸ he)) hs
  have h : s.Inv cfg sha1 react host path r := guarded_invariant hstep inv_start hmem hrun
  refine ⟨?_, ?_, h.progress hargs⟩
  · intro hpoint
    cases h with
    | asking hbytes hlog hopened harrived hreading =>
      rw [hpoint] at hreading
      cases hreading
    | refused later hroute hended hlog hopened harrived hne => exact absurd hpoint hne
    | opening handlers d later hroute hended hlog hopened hclient harrived hreading =>
      rw [hpoint] at hreading
      cases hreading
    | talking handlers d hroute hended hopened hreturned =>
      rw [hroute]
      exact Option.some_ne_none _
  · intro hpoint
    cases h with
    | asking hbytes hlog hopened harrived hreading =>
      rw [hpoint] at hreading
      cases hreading
    | refused later hroute hended hlog hopened harrived hne => exact hroute
    | opening handlers d later hroute hended hlog hopened hclient harrived hreading =>
      rw [hpoint] at hreading
      cases hreading
    | talking handlers d hroute hended hopened hreturned =>
      rw [hpoint] at hreturned
      cases hreturned

theorem connect_decides_chat : ∃ s, run (step (withSha1 routedServer zeroDigest) fun _ _ => [])
    (start (bytes "localhost") (bytes "/chat") (generateKey (List.replicate 16 7))) chatRun
      = some s ∧ (s.point = .returned → routedServer.findWs (bytes "/chat") ≠ none) := by
  obtain ⟨s, hrun, -⟩ := exists_run_chatRun
  exact ⟨s, hrun, (connect_decides routedServer zeroDigest (fun _ _ => []) connectArgs_chat chatRun
    write_eq_none_of_mem_chatRun hrun).1⟩

end WsSession

end WebSocketsLib
