import WebSocketsLib.Client.ReceiveLoop
import WebSocketsLib.WebSocket.Outgoing
import WebSocketsLib.WebSocket.ReadStream

/-!
# A client and a server

After the handshake, the `WebSocketClient` calls its sending functions at any time and runs
`receive_loop`; on the other side is a `WebSocket` with any application.  Between them are the two
directions of the socket: the bytes arrive in order, in chunks of any size.  In the first state `{}`
the `WebSocket` has been constructed; its `start` is a step of the server.

Anything can happen to the server's socket: its reads and writes can fail, and the public functions
of the `WebSocket` can be called from anywhere.  The client's writes succeed, and its reads meet at
most the end of the stream.
-/

namespace WebSocketsLib

/-- A call of one of the client's sending functions, with what `std::random_device` gives. -/
inductive ClientCall
  | sendText (maskBytes : Vector UInt8 4) (msg : Bytes)
  | sendBinary (maskingKey : UInt32) (data : Bytes)
  | sendClose (maskingKey : UInt32) (code : UInt16)
  deriving DecidableEq

/-- What the call writes to the socket. -/
def ClientCall.written (stopped : Bool) : ClientCall → Bytes
  | .sendText maskBytes msg => WebSocketClient.sendText stopped maskBytes msg
  | .sendBinary maskingKey data => WebSocketClient.sendBinary stopped maskingKey data
  | .sendClose maskingKey code => WebSocketClient.sendClose stopped maskingKey code

/-- The two ends of the connection, and the bytes between them. -/
structure Dialogue where
  server : ReadStream := {}
  /-- The buffers that the server has handed to its socket. -/
  handed : List Bytes := []
  /-- The tasks that have been spawned on the server's strand. -/
  spawned : List Task := []
  /-- The calls of the client that found `stopped` unset. -/
  sent : List ClientCall := []
  /-- On the way to the server. -/
  toServer : Bytes := []
  /-- How many of the bytes that the server has handed to its socket have arrived. -/
  arrived : ℕ := 0
  client : Receiving := {}
  deriving DecidableEq

namespace Dialogue

/-- What can happen next. -/
inductive Event
  /-- The client calls a sending function. -/
  | call (k : ClientCall)
  /-- The next `n` bytes arrive at the server. -/
  | toServer (n : ℕ)
  /-- A step of the server. -/
  | server (e : ReadStream.Event)
  /-- The next `n` bytes arrive at the client. -/
  | toClient (n : ℕ)
  /-- The end of the stream arrives at the client. -/
  | finish
  /-- `read_message` returns or throws. -/
  | receive
  deriving DecidableEq

/-- How many of the writes of the server are still outstanding when the event has ended one, or
none. -/
def outstanding (c : Conn) : ReadStream.Event → ℕ
  | .conn e => Outgoing.outstanding c e
  | _ => c.writers.length

/-- How many of the tasks of the strand are still waiting when the event has started one, or
none. -/
def waiting (c : Conn) : ReadStream.Event → ℕ
  | .conn e => c.waitingTasks e
  | _ => c.tasks.length

/-- A step of the server: the writes that it begins and the tasks that it spawns come last. -/
def serverStep (app : App) (s : Dialogue) (e : ReadStream.Event) : Option Dialogue :=
  (s.server.step app e).map fun server => { s with
    server
    handed := s.handed ++
      (server.conn.writers.drop (outstanding s.server.conn e)).map Writer.buf
    spawned := s.spawned ++ server.conn.tasks.drop (waiting s.server.conn e) }

def step (app : App) (s : Dialogue) : Event → Option Dialogue
  | .call k =>
    let stopped := s.client.loop.stopped
    some { s with
      sent := if stopped then s.sent else s.sent ++ [k]
      toServer := s.toServer ++ k.written stopped }
  | .toServer n =>
    if 0 < n ∧ n ≤ s.toServer.length then
      some { s with
        toServer := s.toServer.drop n
        server := { s.server with unread := s.server.unread ++ s.toServer.take n } }
    else none
  | .server e => serverStep app s e
  | .toClient n =>
    if 0 < n ∧ s.arrived + n ≤ s.handed.flatten.length then
      (s.client.step (.arrive ((s.handed.flatten.drop s.arrived).take n))).map fun client =>
        { s with client, arrived := s.arrived + n }
    else none
  | .finish => (s.client.step .finish).map fun client => { s with client }
  | .receive => (s.client.step .receive).map fun client => { s with client }

end Dialogue

end WebSocketsLib
