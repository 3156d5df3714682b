import WebSocketsLib.Client.Handshake
import WebSocketsLib.Dialogue
import WebSocketsLib.Server.DoRead
import WebSocketsLib.Server.ProcessSession

/-!
# A connection from `connect` on

`WebSocketClient::connect` has written its request.  `process_session` reads it, answers, and with
an upgrade passes the socket on to a `WebSocket` (`process_session_ws`); `read_http_headers` reads
the answer and `connect` returns or throws.  From then on the two are the parties of a `Dialogue`.

The server does not wait for the client: behind its answer there can already be frames.  The bytes
arrive in order, in chunks of any size, and the reads of `connect` do not fail.
-/

namespace WebSocketsLib

/-- The handlers that `process_session_ws` makes a `WebSocket` with, when one pass of the loop gets
there and the answer has been written. -/
def processSessionWs (cfg : SessionConfig) (x : Exchange) : Option WsHandlers :=
  if x.req.isWsUpgrade = true ∧ x.req.getHeaderValue (bytes "Sec-WebSocket-Key") ≠ [] ∧
      (serve cfg x).result ≠ none then
    cfg.findWs x.req.path
  else none

/-- Where `WebSocketClient::connect` is. -/
inductive ConnectPoint
  /-- In `read_http_headers`. -/
  | reading
  | returned
  | threw
  deriving DecidableEq, Repr

/-- The two ends of the connection, and the bytes between them. -/
structure WsSession where
  /-- Of the request: on the way to the server, before it reads from a `WebSocket`. -/
  toServer : Bytes := []
  /-- Of the request: what has arrived and has not been read. -/
  socket : Socket := []
  /-- What `process_session` has written. -/
  log : SessionLog := {}
  /-- The application and its connection, from `process_session_ws` on. -/
  opened : Option (App × Dialogue) := none
  /-- What has arrived at the client before `connect` ends. -/
  arrived : Socket := []
  point : ConnectPoint := .reading

/-- What only the client does, or what only happens to it. -/
def Dialogue.Event.ofClient : Dialogue.Event → Bool
  | .toServer _ => false
  | .server _ => false
  | _ => true

namespace WsSession

/-- What can happen next. -/
inductive Event
  /-- The next `n` bytes of the request arrive. -/
  | toServer (n : ℕ)
  /-- One pass of the loop of `process_session`. -/
  | pass (resp : Option Response) (os : Outcomes)
  /-- The next `n` bytes arrive at the client, inside `connect`. -/
  | toConnect (n : ℕ)
  /-- `connect` has read the header block. -/
  | connectEnds
  /-- A step of the dialogue. -/
  | dialogue (e : Dialogue.Event)

/-- The bytes that the server has handed to its socket. -/
def stream (s : WsSession) : Bytes :=
  s.log.bytes ++ (s.opened.map fun (_, d) => d.handed.flatten).getD []

/-- `process_session_ws`, up to the call of `ws->start()`: the `WebSocket` has the socket. -/
def openDialogue (socket : Socket) (toServer : Bytes) : Dialogue where
  server := { unread := socket.unread }
  toServer := toServer

/-- `connect` has returned: the socket still has what `read_http_headers` has not taken. -/
def clientReads (s : WsSession) (socket : Socket) (d : Dialogue) : Dialogue :=
  { d with
    arrived := s.arrived.unread.length - s.log.bytes.length
    client := { d.client with unread := socket.unread } }

/-- `react` is what the applications of the routes call from inside their callbacks. -/
def step (cfg : SessionConfig) (react : Bytes → List Callback → List Call) (s : WsSession) :
    Event → Option WsSession
  | .toServer n =>
    if s.opened = none ∧ 0 < n ∧ n ≤ s.toServer.length then
      some { s with
        toServer := s.toServer.drop n
        socket := s.socket ++ [s.toServer.take n] }
    else none
  | .pass resp os => do
    let (req, socket) ← doRead s.socket
    let log ← s.log.step cfg { req, resp, os }
    match processSessionWs cfg { req, resp, os } with
    | none => pure { s with socket, log }
    | some handlers =>
      let app : App := ⟨handlers, react req.path⟩
      pure { s with
        toServer := []
        socket := []
        log
        opened := some (app, openDialogue socket s.toServer) }
  | .toConnect n =>
    let left := s.stream.drop s.arrived.unread.length
    if s.point = .reading ∧ 0 < n ∧ n ≤ left.length then
      some { s with arrived := s.arrived ++ [left.take n] }
    else none
  | .connectEnds =>
    -- otherwise `read_http_headers` waits
    if s.point = .reading ∧ (readHttpHeaders s.arrived).isSome then
      match connect s.arrived with
      | none => some { s with point := .threw }
      | some socket => some { s with
          point := .returned
          opened := s.opened.map fun (app, d) => (app, s.clientReads socket d) }
    else none
  | .dialogue e =>
    if e.ofClient = true → s.point = .returned then do
      let (app, d) ← s.opened
      let d ← d.step app e
      pure { s with opened := some (app, d) }
    else none

/-- `connect` has written its request. -/
def start (host path key : Bytes) : WsSession where
  toServer := connectRequest host path key

end WsSession

end WebSocketsLib
