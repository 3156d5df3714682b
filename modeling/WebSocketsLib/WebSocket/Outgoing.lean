import WebSocketsLib.WebSocket.Connection

/-!
# The outgoing stream of a WebSocket

The buffers that a connection hands to its socket, in the order in which the writes begin.
-/

namespace WebSocketsLib

/-- A connection, and the buffers that it has handed to the socket. -/
structure Outgoing where
  conn : Conn := {}
  handed : List Bytes := []
  deriving DecidableEq, Repr

namespace Outgoing

/-- How many of the writes of a connection are still outstanding when the event has ended one, or
none. -/
def outstanding (c : Conn) : Conn.Event → ℕ
  | .writeDone _ => c.writers.length - 1
  | .writeFail _ => c.writers.length - 1
  | _ => c.writers.length

/-- A step of the connection: the writes that it begins come after the outstanding ones. -/
def step (app : App) (o : Outgoing) (e : Conn.Event) : Option Outgoing :=
  (o.conn.step app e).map fun c' =>
    { conn := c'
      handed := o.handed ++ (c'.writers.drop (outstanding o.conn e)).map Writer.buf }

end Outgoing

/-- How many of the tasks of the strand are still waiting when the event has started one, or
none. -/
def Conn.waitingTasks (c : Conn) : Conn.Event → ℕ
  | .runTask => c.tasks.length - 1
  | _ => c.tasks.length

/-- Whether a buffer is a Close frame: the opcode is in its first byte. -/
def isCloseFrame (frame : Bytes) : Bool :=
  frame.headD 0 &&& 0x0F == wsClose

end WebSocketsLib
