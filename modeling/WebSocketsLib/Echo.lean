import WebSocketsLib.Client.Frames
import WebSocketsLib.WebSocket.ReadStream

/-!
# A client and an echoing server

The client sends a list of messages with `send_text` and calls `read_message` again and again, both
at any time.  The server's `on_message` answers each message with `send_text_async`.  Between them
are the two directions of the socket: the bytes arrive in order, in chunks of any size.

The server's strand starts its tasks in their order (`Conn.tasks` is a queue); no read or write
fails, and nothing else calls the public functions of the `WebSocket`.
-/

namespace WebSocketsLib

open WebSocketClient

/-- The handler of `on_message` calls `send_text_async` with the text received; those of `on_open`
and `on_close`, where they are installed, call nothing. -/
def echoApp (onOpen onClose : Bool) : App where
  handlers := { onOpen, onMessage := true, onClose }
  react trace :=
    match trace.getLast? with
    | some (.onMessage msg) => [.sendTextAsync msg]
    | _ => []

/-- The bytes that have been handed to the socket. -/
def Conn.handed (c : Conn) : Bytes :=
  (c.written ++ c.writers.map Writer.buf).flatten

/-- The two ends of the connection, and the bytes between them. -/
structure Echo where
  server : ReadStream
  /-- The messages that the client has still to send, with the mask bytes that
  `std::random_device` is going to give. -/
  toSend : List (Vector UInt8 4 × Bytes)
  /-- On the way to the server. -/
  toServer : Bytes := []
  /-- How many of the bytes that the server has handed to its socket have arrived. -/
  arrived : ℕ := 0
  /-- What has arrived and has not been read. -/
  unread : Bytes := []
  assembly : Assembly := {}
  /-- The outcomes of the client's `read_message` calls. -/
  outcomes : List (Except ClientError WsMessage) := []

namespace Echo

/-- What can happen next. -/
inductive Event
  /-- The client calls `send_text` with the next message. -/
  | send
  /-- The next `n` bytes arrive at the server. -/
  | toServer (n : ℕ)
  /-- A step of the server. -/
  | server (e : ReadStream.Event)
  /-- The next `n` bytes arrive at the client. -/
  | toClient (n : ℕ)
  /-- A call of `read_message` returns or throws. -/
  | read
  deriving DecidableEq, Repr

/-- The steps of the server without I/O errors and calls from outside. -/
def serverEvent : ReadStream.Event → Bool
  | .header => true
  | .payload => true
  | .conn .resume => true
  | .conn .runTask => true
  | .conn (.writeDone _) => true
  | .conn _ => false

def step (app : App) (s : Echo) : Event → Option Echo
  | .send =>
    match s.toSend with
    | [] => none
    | (maskBytes, msg) :: toSend =>
      some { s with toSend, toServer := s.toServer ++ sendText false maskBytes msg }
  | .toServer n =>
    if 0 < n ∧ n ≤ s.toServer.length then
      some { s with
        toServer := s.toServer.drop n
        server := { s.server with unread := s.server.unread ++ s.toServer.take n } }
    else none
  | .server e =>
    if serverEvent e then (s.server.step app e).map fun server => { s with server } else none
  | .toClient n =>
    if 0 < n ∧ s.arrived + n ≤ s.server.conn.handed.length then
      some { s with
        arrived := s.arrived + n
        unread := s.unread ++ (s.server.conn.handed.drop s.arrived).take n }
    else none
  | .read =>
    match readMessage s.assembly s.unread with
    -- the call is waiting for more
    | (.error .eof, _, _) => none
    | (outcome, assembly, unread) =>
      some { s with assembly, unread, outcomes := s.outcomes ++ [outcome] }

/-- After the handshake: `start` has run up to the first read. -/
def start (app : App) (messages : List (Vector UInt8 4 × Bytes)) : Echo where
  server := { conn := Conn.start app {} }
  toSend := messages

end Echo

end WebSocketsLib
