import WebSocketsLib.Lib.Runs
import WebSocketsLib.Server.Equiv.DoWrite
import WebSocketsLib.Server.ProcessSession

/-!
# The responses of a session

`framed_iff`: what a session writes is one whole response for each request, and only for its last
request a part of one, exactly when every file response it writes meets its condition
(`FileSettled`).
-/

namespace WebSocketsLib

open Runs

variable {cfg : SessionConfig} {x : Exchange}

/-- The response of the exchange does not set `Content-Length`. -/
def Exchange.NoContentLength (x : Exchange) : Prop :=
  ∀ r, x.resp = some r → r.hasHeader (bytes "Content-Length") = false

/-- A file response of the exchange meets its condition. -/
def Exchange.Settled (cfg : SessionConfig) (x : Exchange) : Prop :=
  x.req.isWsUpgrade = false → ∀ r, x.resp = some r → r.sendfilePath ≠ [] →
    FileSettled cfg.toBuild cfg.socketType (Server.keepAlive x.req) x.os r.sendfileSize

/-! ### One pass -/

/-- A pass that ends with the loop going on, or not, as `keepAlive` says. -/
theorem framed_pass (w : Writing Unit) (keepAlive : Bool) :
    Framed (w >>= fun _ => (pure keepAlive : Writing Bool)).out
        (decide ((w >>= fun _ => (pure keepAlive : Writing Bool)).result ≠ some true))
      ↔ Framed w.out (w.result.isNone || !keepAlive) := by
  cases hr : w.result with
  | none => simp [hr]
  | some a => simp [hr]

theorem framed_writeRefusal (b : Build) (os : Outcomes) {r : Response} (hbody : r.body ≠ [])
    (hno : r.hasHeader (bytes "Content-Length") = false) :
    Framed (writeRefusal b os r).out ((writeRefusal b os r).result.isNone || !false) :=
  framed_asyncWrite (Response.announces_fullHead b.order hbody hno) os.write false

/-- **One request** leaves one whole response, or a part of one and the end of the session, exactly
when a file response meets its condition. -/
theorem framed_serve (hlen : x.NoContentLength) :
    Framed (serve cfg x).out (decide ((serve cfg x).result ≠ some true)) ↔ x.Settled cfg := by
  rw [serve, Exchange.Settled]
  cases hws : x.req.isWsUpgrade with
  | true =>
    -- an upgrade, or its refusal: a regular response after which the session ends
    refine iff_of_true ?_ nofun
    rw [if_pos rfl]
    cases cfg.findWs x.req.path with
    | none =>
      refine (framed_pass _ false).mpr (framed_writeRefusal cfg.toBuild x.os ?_ ?_)
      · simp [Response.notFound, Response.setContent, bytes]
      · rfl
    | some handlers =>
      dsimp only
      split_ifs with hkey
      · refine (framed_pass _ false).mpr (framed_writeRefusal cfg.toBuild x.os ?_ ?_)
        · simp [Response.badRequest, Response.setContent, bytes]
        · rfl
      · refine (framed_pass _ false).mpr ((framed_doWrite cfg.toBuild cfg.socketType x.os ?_
          false).mpr fun hpath => absurd rfl hpath)
        simp only [build101Response, Response.hasHeader_setHeader]
        decide
  | false =>
    rw [if_neg Bool.false_ne_true]
    cases hresp : x.resp with
    | none => exact iff_of_true (Or.inr ⟨rfl, Or.inl rfl⟩) fun _ _ h => by cases h
    | some r =>
      have hno : (r.setHeader (bytes "Connection") (if Server.keepAlive x.req = true then
          bytes "keep-alive" else bytes "close")).hasHeader (bytes "Content-Length") = false := by
        rw [Response.hasHeader_setHeader, hlen r hresp]
        decide
      refine (framed_pass _ _).trans ?_
      refine (framed_doWrite cfg.toBuild cfg.socketType x.os hno _).trans ?_
      simp only [Option.some.injEq, forall_eq', forall_const]
      rfl

/-! ### The whole session -/

/-- **One response for each request**, in their order; only the last may be missing or cut short,
and then the session has ended. -/
def SessionLog.Framed (log : SessionLog) : Prop :=
  (∀ ws ∈ log.served, Whole ws) ∨ log.ended = true ∧ ∃ before last, log.served = before ++ [last] ∧
    (∀ ws ∈ before, Whole ws) ∧ CutShort last

/-- The bytes of whole responses. -/
theorem exists_responses {served : List (List Write)} (h : ∀ ws ∈ served, Whole ws) :
    ∃ rs : List (Head × Bytes), rs.length = served.length ∧
      served.flatten.flatMap Write.sent = rs.flatMap (fun r => r.1.text ++ r.2) ∧
      ∀ r ∈ rs, r.1.Announces r.2.length := by
  induction served with
  | nil => exact ⟨[], rfl, rfl, fun _ hr => absurd hr List.not_mem_nil⟩
  | cons ws served ih =>
    obtain ⟨hws, hserved⟩ := List.forall_mem_cons.mp h
    obtain ⟨hd, body, hsent, hann⟩ := hws.bytes
    obtain ⟨rs, hlen, hbytes, hrs⟩ := ih hserved
    refine ⟨(hd, body) :: rs, ?_, ?_, List.forall_mem_cons.mpr ⟨hann, hrs⟩⟩
    · rw [List.length_cons, List.length_cons, hlen]
    · rw [List.flatten_cons, List.flatMap_append, hsent, hbytes, List.flatMap_cons]

/-- **The bytes of a session** whose log is framed: one head and one body of the length that it
announces for each request, but perhaps for the last one, after which the session has ended. -/
theorem SessionLog.Framed.bytes {log : SessionLog} (h : log.Framed) :
    ∃ (rs : List (Head × Bytes)) (last : List Write),
      log.bytes = rs.flatMap (fun r => r.1.text ++ r.2) ++ last.flatMap Write.sent ∧
      (∀ r ∈ rs, r.1.Announces r.2.length) ∧
      (rs.length = log.served.length ∧ last = [] ∨
        log.ended = true ∧ rs.length + 1 = log.served.length ∧ CutShort last) := by
  rcases h with hall | ⟨hended, before, last, heq, hbefore, hcut⟩
  · obtain ⟨rs, hlen, hbytes, hrs⟩ := exists_responses hall
    refine ⟨rs, [], ?_, hrs, Or.inl ⟨hlen, rfl⟩⟩
    rw [List.flatMap_nil, List.append_nil, ← hbytes]
    rfl
  · obtain ⟨rs, hlen, hbytes, hrs⟩ := exists_responses hbefore
    refine ⟨rs, last, ?_, hrs, Or.inr ⟨hended, ?_, hcut⟩⟩
    · rw [SessionLog.bytes, heq, List.flatten_append, List.flatMap_append, hbytes,
        List.flatten_singleton]
    · rw [heq, hlen, List.length_append, List.length_singleton]

theorem SessionLog.framed_concat (served : List (List Write)) (last : List Write) (ended : Bool) :
    SessionLog.Framed { served := served ++ [last], ended }
      ↔ (∀ ws ∈ served, Whole ws) ∧ WebSocketsLib.Framed last ended := by
  constructor
  · rintro (hall | ⟨hended, before, last', heq, hbefore, hcut⟩)
    · exact ⟨fun ws hws => hall ws (List.mem_append_left _ hws),
        Or.inl (hall last (List.mem_append_right _ (List.mem_singleton_self last)))⟩
    · obtain ⟨rfl, hlast⟩ := List.append_inj' heq rfl
      obtain rfl := List.singleton_inj.mp hlast
      exact ⟨hbefore, Or.inr ⟨hended, hcut⟩⟩
  · rintro ⟨hserved, hwhole | ⟨hended, hcut⟩⟩
    · exact Or.inl (List.forall_mem_append.mpr ⟨hserved, List.forall_mem_singleton.mpr hwhole⟩)
    · exact Or.inr ⟨hended, served, last, rfl, hserved, hcut⟩

theorem SessionLog.framed_step {log log' : SessionLog} (hlen : x.NoContentLength)
    (hstep : log.step cfg x = some log') : log'.Framed ↔ log.Framed ∧ x.Settled cfg := by
  rw [step] at hstep
  split_ifs at hstep with hended
  obtain rfl := Option.some.inj hstep
  rw [framed_concat, framed_serve hlen]
  -- a session that goes on has cut no response short
  refine and_congr_left fun _ => ⟨Or.inl, ?_⟩
  rintro (hall | ⟨hyes, -⟩)
  · exact hall
  · exact absurd hyes hended

/-- **The framing of a session**: over any sequence of requests and of responses that do not set
`Content-Length`, and whatever the operating system does. -/
theorem framed_iff (cfg : SessionConfig) (xs : List Exchange) {log : SessionLog}
    (hlen : ∀ x ∈ xs, x.NoContentLength) (hrun : run (SessionLog.step cfg) {} xs = some log) :
    log.Framed ↔ ∀ x ∈ xs, x.Settled cfg := by
  have hstep : ∀ {log : SessionLog} {x log'}, True → x.NoContentLength →
      log.step cfg x = some log' → True ∧ (log'.Framed ↔ log.Framed ∧ x.Settled cfg) :=
    fun _ hx h => ⟨trivial, SessionLog.framed_step hx h⟩
  have hempty : SessionLog.Framed {} := Or.inl fun _ h => absurd h List.not_mem_nil
  rw [guarded_iff hstep trivial ((guarded_iff_forall hrun).mpr hlen)
    hrun, guarded_iff_forall hrun, and_iff_right hempty]

/-- A plain server on Linux without WebSockets. -/
def linuxServer : SessionConfig where
  useSsl := false
  findWs := fun _ => none
  platform := .linux
  order := ⟨id, fun _ => List.Perm.refl _⟩
  wsAcceptKey := id

/-- A request for a file of five bytes. -/
def fileExchange (os : Outcomes) : Exchange where
  req := parseHttpRequest (bytes "GET /a HTTP/1.1\r\n\r\n")
  resp := some { sendfilePath := bytes "/srv/www/a", sendfileSize := 5 }
  os := os

/-- A request without a file, which ends the session. -/
def textExchange : Exchange where
  req := parseHttpRequest (bytes "GET /b HTTP/1.1\r\nConnection: close\r\n\r\n")
  resp := some (Response.text (bytes "OK"))
  os := {}

theorem noContentLength_fileThenText (os : Outcomes) :
    ∀ x ∈ [fileExchange os, textExchange], x.NoContentLength := by
  refine List.forall_mem_cons.mpr ⟨?_, List.forall_mem_singleton.mpr ?_⟩
  · rintro r ⟨rfl⟩
    rfl
  · rintro r ⟨rfl⟩
    rfl

/-- The file goes out in two calls of `sendfile`. -/
def twoCalls : Outcomes where
  sendfile := [.sent (bytes "abc"), .wouldBlock true, .sent (bytes "de")]

theorem not_stopsShort_twoCalls :
    ¬ Transfers.StopsShort sendfileProgress twoCalls.sendfile 5 := by
  have habc : sendfileProgress (.sent (bytes "abc")) = .moves 3 := rfl
  have hwait : sendfileProgress (.wouldBlock true) = .moves 0 := rfl
  have hde : sendfileProgress (.sent (bytes "de")) = .moves 2 := rfl
  rw [twoCalls, Transfers.stopsShort_of_moves habc, Transfers.stopsShort_of_moves hwait,
    Transfers.stopsShort_of_moves hde]
  exact Transfers.not_stopsShort_zero []

theorem framed_iff_twoCalls :
    ∃ log, run (SessionLog.step linuxServer) {} [fileExchange twoCalls, textExchange] = some log ∧
      log.served.length = 2 ∧ log.Framed := by
  refine ⟨_, rfl, rfl, (framed_iff linuxServer [fileExchange twoCalls, textExchange]
    (noContentLength_fileThenText twoCalls) rfl).mpr ?_⟩
  refine List.forall_mem_cons.mpr ⟨?_, List.forall_mem_singleton.mpr ?_⟩
  · rintro - r ⟨rfl⟩ - - - (hopens | hshort)
    · cases hopens
    · exact not_stopsShort_twoCalls hshort
  · rintro - r ⟨rfl⟩ hpath
    exact absurd rfl hpath

/-- The file cannot be opened. -/
def unreadable : Outcomes where
  opens := false

/-- A head that announces five bytes is followed by the head of the next response. -/
theorem not_framed_unreadable :
    ¬ ∀ (cfg : SessionConfig) (xs : List Exchange) (log : SessionLog),
      (∀ x ∈ xs, x.NoContentLength) → run (SessionLog.step cfg) {} xs = some log → log.Framed := by
  intro h
  have hlen := noContentLength_fileThenText unreadable
  have hframed := h linuxServer [fileExchange unreadable, textExchange] _ hlen rfl
  obtain ⟨hserved, -⟩ := (SessionLog.framed_concat [_] _ _).mp hframed
  have hwhole : Whole (serve linuxServer (fileExchange unreadable)).out :=
    hserved _ (List.mem_singleton_self _)
  have hsettled : (fileExchange unreadable).Settled linuxServer :=
    (framed_serve (hlen _ List.mem_cons_self)).mp (Or.inl hwhole)
  exact hsettled rfl _ rfl (by decide) rfl rfl (Or.inl rfl)

end WebSocketsLib
