import WebSocketsLib.Http.Request
import WebSocketsLib.WebSocket.Connection
import Mathlib.Data.Finset.Basic
import Mathlib.Logic.Function.Basic

/-!
# The sessions of a server and its registries

`do_accept` starts a `handle_client` for every connection.  A session goes through the TLS
handshake, the loop of `process_session` and, after an upgrade, the life of a `WebSocket`; on the
way it is entered in and removed from `client_cancel_` and `websockets_`.  The code between two
suspension points is one step, and the steps of all sessions interleave.

What is read and written is not modelled here, only how each suspension ends: the request that
`do_read` returns decides the branch.
-/

namespace WebSocketsLib

/-- What does not change while the server runs: `use_ssl_` and `ws_routes_`. -/
structure ServerConfig where
  useSsl : Bool
  findWs : Bytes → Option WsHandlers

/-- Where `handle_client` is suspended. -/
inductive Phase
  /-- In `async_handshake`. -/
  | handshake
  /-- In `do_read`. -/
  | reading
  /-- In `handle_request`. -/
  | handling (keepAlive : Bool)
  /-- In the `do_write` of the response. -/
  | writing (keepAlive : Bool)
  /-- In the write of the refusal of an upgrade. -/
  | refusing
  /-- In the `do_write` of the 101 response. -/
  | upgrading (handlers : WsHandlers)
  /-- Behind `register_websocket`, then in `ws->start()`. -/
  | websocket
  /-- The coroutine has finished. -/
  | finished
  deriving DecidableEq, Repr

/-- One `handle_client`.  The `WebSocket` lives on when the coroutine has finished. -/
structure Session where
  phase : Phase
  ws : Option (App × Conn) := none

/-- The server: the counter of `do_accept`, the keys of `client_cancel_` and of `websockets_`, and
the sessions by their client id. -/
structure Server where
  clientId : ℕ := 0
  clientCancel : Finset ℕ := ∅
  websockets : Finset ℕ := ∅
  sessions : ℕ → Option Session := fun _ => none

/-- How a suspension of a session ends, or a step of its `WebSocket`. -/
inductive SessionEvent
  | handshakeDone
  | handshakeError
  /-- `do_read` returns. -/
  | request (req : Request)
  /-- `do_read` throws. -/
  | readError
  /-- `handle_request` returns. -/
  | handled
  /-- A handler throws. -/
  | handlerError
  /-- A write completes.  `react` is what the application calls from the callbacks of the
  `WebSocket`, if this was the 101 response. -/
  | written (react : List Callback → List Call)
  | writeError
  | ws (e : Conn.Event)

namespace Server

def setSession (id : ℕ) (sess : Session) (s : Server) : Server :=
  { s with sessions := Function.update s.sessions id (some sess) }

/-- `add_client`. -/
def addClient (id : ℕ) (s : Server) : Server :=
  { s with clientCancel := insert id s.clientCancel }

/-- `remove_client`. -/
def removeClient (id : ℕ) (s : Server) : Server :=
  { s with clientCancel := s.clientCancel.erase id }

/-- `register_websocket`. -/
def registerWebsocket (id : ℕ) (s : Server) : Server :=
  { s with websockets := insert id s.websockets }

/-- `remove_websocket`. -/
def removeWebsocket (id : ℕ) (s : Server) : Server :=
  { s with websockets := s.websockets.erase id }

/-- The coroutine goes on to its next suspension. -/
def enter (id : ℕ) (phase : Phase) (s : Server) : Server :=
  s.setSession id { phase }

/-- The coroutine finishes, with or without an exception: the destructor of the scope guard. -/
def finish (id : ℕ) (ws : Option (App × Conn)) (s : Server) : Server :=
  (s.setSession id { phase := .finished, ws }).removeClient id

/-- `conn == "close"` of a non-empty `Connection` header. -/
def keepAlive (req : Request) : Bool :=
  decide (req.getHeaderValue (bytes "Connection") ≠ bytes "close")

/-- The branches of `process_session` after `do_read`. -/
def afterRead (cfg : ServerConfig) (req : Request) : Phase :=
  if req.isWsUpgrade then
    match cfg.findWs req.path with
    | none => .refusing
    | some handlers =>
      if req.getHeaderValue (bytes "Sec-WebSocket-Key") = [] then .refusing
      else .upgrading handlers
  else .handling (keepAlive req)

/-- The `WebSocket` has taken a step from `c` to `c'`: its cleanup callback, and the end of the
coroutine if its read loop has ended. -/
def afterWs (id : ℕ) (phase : Phase) (app : App) (c c' : Conn) (s : Server) : Server :=
  let s := if c'.cleanedUp && !c.cleanedUp then s.removeWebsocket id else s
  if phase = .websocket ∧ (c'.readLoop = .returned ∨ c'.readLoop = .threw) then
    s.finish id (some (app, c'))
  else s.setSession id { phase, ws := some (app, c') }

/-- `process_session_ws` after the 101 response has been written, up to `register_websocket`.  The
call of `ws->start()` is a step of the `WebSocket`. -/
def makeWebSocket (id : ℕ) (app : App) (s : Server) : Server :=
  (s.registerWebsocket id).setSession id { phase := .websocket, ws := some (app, {}) }

/-- One step of the session `id`. -/
def sessionStep (cfg : ServerConfig) (id : ℕ) (s : Server) (sess : Session) :
    SessionEvent → Option Server
  | .handshakeDone => if sess.phase = .handshake then some (s.enter id .reading) else none
  | .handshakeError => if sess.phase = .handshake then some (s.finish id none) else none
  | .request req => if sess.phase = .reading then some (s.enter id (afterRead cfg req)) else none
  -- `catch (const std::exception &e) { break; }`
  | .readError => if sess.phase = .reading then some (s.finish id none) else none
  | .handled =>
    match sess.phase with
    | .handling keepAlive => some (s.enter id (.writing keepAlive))
    | _ => none
  | .handlerError =>
    match sess.phase with
    | .handling _ => some (s.finish id none)
    | _ => none
  | .written react =>
    match sess.phase with
    | .writing true => some (s.enter id .reading)
    | .writing false => some (s.finish id none)
    | .refusing => some (s.finish id none)
    | .upgrading handlers => some (s.makeWebSocket id { handlers, react })
    | _ => none
  | .writeError =>
    match sess.phase with
    | .writing _ => some (s.finish id none)
    | .refusing => some (s.finish id none)
    | .upgrading _ => some (s.finish id none)
    | _ => none
  | .ws e =>
    match sess.ws with
    | some (app, c) => (c.step app e).map fun c' => s.afterWs id sess.phase app c c'
    | none => none

/-- What can happen next. -/
inductive Event
  /-- `async_accept` completes, and `handle_client` runs up to its first suspension. -/
  | accept
  | session (id : ℕ) (e : SessionEvent)

def step (cfg : ServerConfig) (s : Server) : Event → Option Server
  | .accept =>
    let id := s.clientId + 1
    some (({ s with clientId := id }.addClient id).enter id
      (if cfg.useSsl then .handshake else .reading))
  | .session id e => (s.sessions id).bind fun sess => sessionStep cfg id s sess e

end Server

end WebSocketsLib
