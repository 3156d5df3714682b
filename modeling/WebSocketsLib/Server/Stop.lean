import WebSocketsLib.Server.Sessions

/-!
# `stop` among the sessions

`Server::stop` calls `server_cancel_.emit`, `emit_all` and `close_websockets` while `do_accept` and
the sessions go on.  An `emit` acts on what is installed in the cancellation slot at that moment: an
operation that is bound to the slot and has not completed, or the handler that `process_session_ws`
has assigned.  So the steps are finer here than in `Server/Sessions.lean`: an operation completes in
one step, the coroutine that awaits it goes on in another, and what `handle_client` and
`process_session_ws` do between two operations is cut at the locked sections.

`readsBegun` counts the reads of client sockets.  The handlers, what is read and what is written are
not modelled, as in `Server/Sessions.lean`.
-/

namespace WebSocketsLib

namespace Stop

/-! ### Sessions -/

/-- An operation that `do_write` awaits. -/
inductive WriteOp
  /-- The `async_write` of `write_regular_response`. -/
  | response
  /-- The `async_write` of the head before `sendfile_fast_path` or `transmitfile_fast_path`. -/
  | sendfileHead
  /-- The `async_wait` of `sendfile_fast_path`. -/
  | sendfileWait
  /-- The `async_write` of the head before the streaming loop. -/
  | streamHead
  /-- The `async_read_some` of the streaming loop. -/
  | fileRead
  /-- The `async_write` of the streaming loop. -/
  | fileWrite
  deriving DecidableEq, Repr

namespace WriteOp

/-- Whether it is bound to the slot of the client. -/
def bound : WriteOp → Bool
  | .sendfileWait => false
  | _ => true

/-- Whether `do_write` begins with it. -/
def isFirst : WriteOp → Bool
  | .response => true
  | .sendfileHead => true
  | .streamHead => true
  | _ => false

/-- What `do_write` can await next, on one of the platforms; `none` is its end. -/
def hasNext : WriteOp → Option WriteOp → Bool
  | .sendfileHead, some .sendfileWait => true
  -- on Windows, when `transmitfile_fast_path` has returned `false`
  | .sendfileHead, some .streamHead => true
  | .sendfileWait, some .sendfileWait => true
  | .streamHead, some .fileRead => true
  | .fileRead, some .fileWrite => true
  | .fileWrite, some .fileRead => true
  | _, some _ => false
  | _, none => true

end WriteOp

/-- Where `handle_client` is. -/
inductive Point
  /-- Spawned by `do_accept`. -/
  | spawned
  /-- After `add_client`, before the first operation. -/
  | added
  /-- In `async_handshake`. -/
  | handshake
  /-- In the `async_read_until` of `co_read_headers`. -/
  | readHead
  /-- In the `async_read` of `co_read_body`. -/
  | readBody
  /-- In `handle_request`. -/
  | handler (keepAlive : Bool)
  /-- In `do_write`. -/
  | write (op : WriteOp) (keepAlive : Bool)
  /-- In the write of the refusal of an upgrade. -/
  | refusal
  /-- In the `do_write` of the 101 response. -/
  | upgrade (handlers : WsHandlers)
  /-- After `register_websocket`. -/
  | registered
  /-- After `token.assign`. -/
  | assigned
  /-- In `ws->start()`; `betweenReads` when a read of a frame has completed that was not the last
  one, and the loop has not gone on. -/
  | started (betweenReads : Bool)
  /-- The coroutine has finished. -/
  | finished
  deriving DecidableEq, Repr

namespace Point

/-- Whether the coroutine awaits an operation that is bound to the slot. -/
def bound : Point → Bool
  | .handshake => true
  | .readHead => true
  | .readBody => true
  | .write op _ => op.bound
  | .refusal => true
  | .upgrade _ => true
  | _ => false

/-- Whether it awaits an operation or a handler of a request. -/
def awaits : Point → Bool
  | .handler _ => true
  | .write _ _ => true
  | p => p.bound

/-- Whether the slot holds the handler that closes the `WebSocket`. -/
def hasCloser : Point → Bool
  | .assigned => true
  | .started _ => true
  | _ => false

/-- Whether an event of the `WebSocket` can happen there: `start` has its own event, and between two
reads of a frame no read is pending. -/
def admits : Point → Conn.Event → Bool
  | _, .start => false
  | .started true, .recv _ => false
  | .started true, .readError => false
  | .started _, _ => true
  | .registered, _ => true
  | .assigned, _ => true
  | .finished, _ => true
  | _, _ => false

/-- The first operation of a phase. -/
def ofPhase : Phase → Point
  | .handshake => .handshake
  | .reading => .readHead
  | .handling keepAlive => .handler keepAlive
  | .writing keepAlive => .write .response keepAlive
  | .refusing => .refusal
  | .upgrading handlers => .upgrade handlers
  | .websocket => .started false
  | .finished => .finished

end Point

/-- One `handle_client`.  `result` tells how what it awaits has ended, `true` for success, when it
has ended and the coroutine has not gone on. -/
structure Session where
  point : Point
  result : Option Bool := none
  ws : Option (App × Conn) := none

/-- A change of `client_cancel_` or `websockets_`. -/
inductive RegistryCall
  | addClient
  | removeClient
  | registerWebsocket
  | removeWebsocket
  deriving DecidableEq, Repr

/-- What a step of a session does: the session after it, the changes of the registries, and how many
reads of the socket it begins. -/
structure Outcome where
  session : Session
  calls : List RegistryCall := []
  reads : ℕ := 0

namespace Session

/-- The coroutine goes on to its next operation. -/
def goTo (point : Point) : Outcome where
  session := { point }

/-- The coroutine begins a read. -/
def beginRead (point : Point) : Outcome where
  session := { point }
  reads := 1

/-- The coroutine finishes: the destructor of the scope guard. -/
def finish (ws : Option (App × Conn)) : Outcome where
  session := { point := .finished, ws }
  calls := [.removeClient]

/-- The end of an iteration of `process_session`. -/
def nextIteration (keepAlive : Bool) : Outcome :=
  if keepAlive then beginRead .readHead else finish none

/-- In `do_write`, which awaits `op` next or has returned. -/
def writeFrom (op : Option WriteOp) (keepAlive : Bool) : Outcome :=
  match op with
  | some op => goTo (.write op keepAlive)
  | none => nextIteration keepAlive

/-- The `WebSocket` has taken a step from `c` to `c'`: its cleanup callback, and the end of the
coroutine if its read loop has ended. -/
def afterWs (sess : Session) (app : App) (c c' : Conn) : Outcome :=
  let ended := sess.point = .started false ∧ (c'.readLoop = .returned ∨ c'.readLoop = .threw)
  { session :=
      if ended then { point := .finished, ws := some (app, c') }
      else { sess with ws := some (app, c') }
    calls := (if c'.cleanedUp && !c.cleanedUp then [.removeWebsocket] else []) ++
      if ended then [.removeClient] else []
    reads := if c.readLoop ≠ .reading ∧ c'.readLoop = .reading then 1 else 0 }

/-- `ws->start()`, up to its first suspension; `close` may have been called before. -/
def startWebSocket (app : App) (c : Conn) : Outcome :=
  afterWs { point := .started false } app c (c.start app)

end Session

/-- What a session can do. -/
inductive SessionEvent
  /-- `add_client`. -/
  | begin
  | firstOperation
  /-- What the coroutine awaits ends, normally or with an error. -/
  | ends (ok : Bool)
  /-- The coroutine goes on with the exception. -/
  | throws
  /-- The coroutine goes on behind `async_handshake`. -/
  | afterHandshake
  /-- .. behind `async_read_until`, which has read the head of `req`; `bodyDue` when the rest of the
  body has to be read. -/
  | afterHead (req : Request) (bodyDue : Bool)
  /-- .. behind `async_read`. -/
  | afterBody (req : Request)
  /-- .. behind `handle_request`; `do_write` awaits `op`, or nothing when it cannot open the
  file. -/
  | afterHandler (op : Option WriteOp)
  /-- .. behind an operation of `do_write`. -/
  | afterWrite (op : Option WriteOp)
  | afterRefusal
  /-- .. behind the 101 response, up to `register_websocket`.  `react` is what the application calls
  from the callbacks. -/
  | afterUpgrade (react : List Callback → List Call)
  /-- `token.assign`. -/
  | assign
  /-- `ws->start()`. -/
  | startWebSocket
  /-- A read of a frame completes that is not the last one. -/
  | partRead
  /-- The read loop begins the next read of the frame. -/
  | nextRead
  /-- A step of the `WebSocket`. -/
  | ws (e : Conn.Event)

/-- One step of a session. -/
def sessionStep (cfg : ServerConfig) (sess : Session) : SessionEvent → Option Outcome
  | .begin =>
    if sess.point = .spawned ∧ sess.result = none then
      some { session := { point := .added }, calls := [.addClient] }
    else none
  | .firstOperation =>
    if sess.point = .added ∧ sess.result = none then
      some (if cfg.useSsl then Session.goTo .handshake else Session.beginRead .readHead)
    else none
  | .ends ok =>
    if sess.point.awaits ∧ sess.result = none then
      some { session := { sess with result := some ok } }
    else none
  | .throws =>
    if sess.point.awaits ∧ sess.result = some false then some (Session.finish none) else none
  | .afterHandshake =>
    if sess.point = .handshake ∧ sess.result = some true then some (Session.beginRead .readHead)
    else none
  | .afterHead req bodyDue =>
    if sess.point = .readHead ∧ sess.result = some true then
      some (if bodyDue then Session.beginRead .readBody
        else Session.goTo (.ofPhase (Server.afterRead cfg req)))
    else none
  | .afterBody req =>
    if sess.point = .readBody ∧ sess.result = some true then
      some (Session.goTo (.ofPhase (Server.afterRead cfg req)))
    else none
  | .afterHandler op =>
    match sess.point, sess.result with
    | .handler keepAlive, some true =>
      if op.all WriteOp.isFirst then some (Session.writeFrom op keepAlive) else none
    | _, _ => none
  | .afterWrite op =>
    match sess.point, sess.result with
    | .write last keepAlive, some true =>
      if last.hasNext op then some (Session.writeFrom op keepAlive) else none
    | _, _ => none
  | .afterRefusal =>
    if sess.point = .refusal ∧ sess.result = some true then some (Session.finish none) else none
  | .afterUpgrade react =>
    match sess.point, sess.result with
    | .upgrade handlers, some true => some {
        session := { point := .registered, ws := some ({ handlers, react }, {}) }
        calls := [.registerWebsocket] }
    | _, _ => none
  | .assign =>
    if sess.point = .registered then some { session := { sess with point := .assigned } } else none
  | .startWebSocket =>
    match sess.point, sess.ws with
    | .assigned, some (app, c) => some (Session.startWebSocket app c)
    | _, _ => none
  | .partRead =>
    match sess.point, sess.ws with
    | .started false, some (_, c) =>
      -- a read on a socket that `close` has shut down fails
      if c.readLoop = .reading ∧ c.state = .wsOpen then
        some { session := { sess with point := .started true } }
      else none
    | _, _ => none
  | .nextRead =>
    if sess.point = .started true then
      some { session := { sess with point := .started false }, reads := 1 }
    else none
  | .ws e =>
    match sess.ws with
    | some (app, c) =>
      if sess.point.admits e then (c.step app e).map (sess.afterWs app c) else none
    | none => none

/-! ### The server -/

/-- Where `do_accept` is. -/
inductive Acceptor
  /-- In `async_accept`. -/
  | accepting
  /-- `async_accept` has completed. -/
  | accepted
  /-- `async_accept` has been aborted. -/
  | aborted
  /-- The coroutine has finished. -/
  | ended
  deriving DecidableEq, Repr

/-- Where `stop` is. -/
inductive StopPoint
  | notCalled
  /-- After `server_cancel_.emit`. -/
  | acceptStopped
  /-- In `emit_all`, with the ids that are left of its copy. -/
  | emitting (ids : Finset ℕ)
  /-- After `close_websockets`. -/
  | closed
  deriving DecidableEq

structure State where
  acceptor : Acceptor := .accepting
  clientId : ℕ := 0
  clientCancel : Finset ℕ := ∅
  websockets : Finset ℕ := ∅
  sessions : ℕ → Option Session := fun _ => none
  stop : StopPoint := .notCalled
  /-- How many reads of client sockets have been begun. -/
  readsBegun : ℕ := 0

namespace State

def call (id : ℕ) (s : State) : RegistryCall → State
  | .addClient => { s with clientCancel := insert id s.clientCancel }
  | .removeClient => { s with clientCancel := s.clientCancel.erase id }
  | .registerWebsocket => { s with websockets := insert id s.websockets }
  | .removeWebsocket => { s with websockets := s.websockets.erase id }

def setSession (id : ℕ) (sess : Session) (s : State) : State :=
  { s with sessions := Function.update s.sessions id (some sess) }

/-- A step of the session `id`. -/
def apply (id : ℕ) (o : Outcome) (s : State) : State :=
  let s := o.calls.foldl (call id) s
  { s.setSession id o.session with readsBegun := s.readsBegun + o.reads }

/-- What `emit` does to a session. -/
def emitted (sess : Session) : Session :=
  if sess.point.bound ∧ sess.result = none then
    -- the operation completes with `operation_aborted`
    { sess with result := some false }
  else if sess.point.hasCloser then
    { sess with ws := sess.ws.map fun (app, c) =>
      (app, c.call app (.closeAsync 1001 (bytes "Cancelled by server"))) }
  else sess

/-- `emit_client`. -/
def emitClient (id : ℕ) (s : State) : State :=
  if id ∈ s.clientCancel then
    match s.sessions id with
    | some sess => s.setSession id (emitted sess)
    | none => s
  else s

/-- Whether the `WebSocket` of the client is in `WS_OPEN`. -/
def isOpen (s : State) (id : ℕ) : Bool :=
  match (s.sessions id).bind Session.ws with
  | some (_, c) => decide (c.state = .wsOpen)
  | none => false

/-- `ws->close` in `close_websockets`. -/
def closeWebsocket (sess : Session) : Session :=
  { sess with ws := sess.ws.map fun (app, c) =>
    (app, c.close app none 1001 (bytes "Server stopped working")) }

/-- `close_websockets`: every `close` that closes a `WebSocket` removes it. -/
def closeWebsockets (s : State) : State :=
  { s with
    sessions := fun id =>
      if id ∈ s.websockets then (s.sessions id).map closeWebsocket else s.sessions id
    websockets := s.websockets.filter fun id => s.isOpen id = false }

end State

/-- What can happen next. -/
inductive Event
  /-- `async_accept` completes. -/
  | accept
  /-- `do_accept` goes on. -/
  | acceptorResumes
  | session (id : ℕ) (e : SessionEvent)
  /-- `server_cancel_.emit`. -/
  | emitServer
  /-- `emit_all` copies the ids. -/
  | copyIds
  | emitClient (id : ℕ)
  | closeWebsockets

def step (cfg : ServerConfig) (s : State) : Event → Option State
  | .accept => if s.acceptor = .accepting then some { s with acceptor := .accepted } else none
  | .acceptorResumes =>
    match s.acceptor with
    | .accepted => some ({ s with acceptor := .accepting, clientId := s.clientId + 1 }.setSession
        (s.clientId + 1) { point := .spawned })
    | .aborted => some { s with acceptor := .ended }
    | _ => none
  | .session id e =>
    (s.sessions id).bind fun sess => (sessionStep cfg sess e).map fun o => s.apply id o
  | .emitServer =>
    if s.stop = .notCalled then
      some { s with
        stop := .acceptStopped
        acceptor := if s.acceptor = .accepting then .aborted else s.acceptor }
    else none
  | .copyIds =>
    if s.stop = .acceptStopped then some { s with stop := .emitting s.clientCancel } else none
  | .emitClient id =>
    match s.stop with
    | .emitting ids =>
      if id ∈ ids then some { s.emitClient id with stop := .emitting (ids.erase id) } else none
    | _ => none
  | .closeWebsockets =>
    if s.stop = .emitting ∅ then some { s.closeWebsockets with stop := .closed } else none

end Stop

end WebSocketsLib
