import WebSocketsLib.Client.Frames
import WebSocketsLib.Lib.Chunks

/-!
# The client's receive loop

`WebSocketClient::receive_loop` (`websocket_client.cpp`): it calls `read_message` until an exception
comes, prints the text messages, and says how the connection ended.

`receiveLoop` is the loop on a stream that is complete; `ReceiveLoop.step` takes the same loop
through a stream that is still arriving.
-/

namespace WebSocketsLib

open WebSocketClient

/-- What the loop prints in one statement. -/
inductive Printed
  /-- A text message. -/
  | text (msg : Bytes)
  | connectionClosed
  | error (what : Bytes)
  deriving DecidableEq, Repr

/-- The characters of it. -/
def Printed.line : Printed → Bytes
  | .text msg => bytes "[WS CLIENT] Text: " ++ msg ++ bytes "\n"
  | .connectionClosed => bytes "[WS CLIENT] Connection closed by server.\n"
  | .error what => bytes "[WS CLIENT] Error: " ++ what ++ bytes "\n"

/-- Whether it goes to `std::cerr`, and not to `std::cout`. -/
def Printed.toCerr : Printed → Bool
  | .error _ => true
  | _ => false

/-- What the loop has printed, and the members of the client. -/
structure ReceiveLoop where
  assembly : Assembly := {}
  printed : List Printed := []
  stopped : Bool := false
  deriving DecidableEq, Repr

namespace ReceiveLoop

/-- What is written to `std::cout`. -/
def cout (l : ReceiveLoop) : Bytes :=
  (l.printed.filter fun p => !p.toCerr).flatMap Printed.line

/-- What is written to `std::cerr`. -/
def cerr (l : ReceiveLoop) : Bytes :=
  (l.printed.filter Printed.toCerr).flatMap Printed.line

/-- What is printed for a message: nothing unless it is a text. -/
def printMessage (m : WsMessage) : List Printed :=
  if m.opcode = 0x1 then [.text m.payload] else []

/-- The test of the `catch` block. -/
def closedByServer (what : Bytes) : Bool :=
  what == bytes "Server closed connection"
    || (Chunks.findEnd (bytes "stream truncated") what).isSome
    || (Chunks.findEnd (bytes "eof") what).isSome
    || (Chunks.findEnd (bytes "EOF") what).isSome

/-- What the `catch` block prints. -/
def printException (what : Bytes) : Printed :=
  if closedByServer what then .connectionClosed else .error what

/-- The `catch` block, and the end of the loop. -/
def handleException (what : Bytes) (l : ReceiveLoop) : ReceiveLoop :=
  { l with printed := l.printed ++ [printException what], stopped := true }

/-- The loop from one iteration on, until the bytes `s` of the stream have been read.  Every
iteration but the last reads at least two bytes, so `fuel` is the number of bytes and one more. -/
def iterate : ℕ → ReceiveLoop → Bytes → ReceiveLoop
  | 0, l, _ => l
  | fuel + 1, l, s =>
    match readMessage l.assembly s with
    | (.ok m, assembly, s) =>
      iterate fuel { l with assembly, printed := l.printed ++ printMessage m } s
    | (.error e, assembly, _) => { l with assembly }.handleException e.what

end ReceiveLoop

/-- `receive_loop`, on a connection on which the server sends `s` and ends the stream. -/
def receiveLoop (s : Bytes) : ReceiveLoop :=
  ReceiveLoop.iterate (s.length + 1) {} s

/-! ### A stream that is still arriving -/

/-- The loop, what has arrived and has not been read, and whether the server has ended the
stream. -/
structure Receiving where
  loop : ReceiveLoop := {}
  unread : Bytes := []
  ended : Bool := false
  deriving DecidableEq, Repr

namespace Receiving

/-- What can happen next. -/
inductive Event
  /-- More bytes arrive. -/
  | arrive (more : Bytes)
  /-- The end of the stream arrives. -/
  | finish
  /-- `read_message` returns or throws. -/
  | receive
  /-- A read that waits for more fails, with what the error code says. -/
  | readError (message : Bytes)
  deriving DecidableEq, Repr

/-- `read_message` throws. -/
def throws (what : Bytes) (r : Receiving) : Receiving :=
  let (_, assembly, unread) := readMessage r.loop.assembly r.unread
  { r with loop := { r.loop with assembly }.handleException what, unread }

/-- `read_message` returns. -/
def returns (m : WsMessage) (r : Receiving) : Receiving :=
  let (_, assembly, unread) := readMessage r.loop.assembly r.unread
  { r with
    loop := { r.loop with
      assembly
      printed := r.loop.printed ++ ReceiveLoop.printMessage m }
    unread }

def step (r : Receiving) : Event → Option Receiving
  | .arrive more => if r.ended then none else some { r with unread := r.unread ++ more }
  | .finish => some { r with ended := true }
  | .receive =>
    if r.loop.stopped then none
    else
      match (readMessage r.loop.assembly r.unread).1 with
      | .ok m => some (r.returns m)
      -- the read waits for more
      | .error .eof => if r.ended then some (r.throws ClientError.eof.what) else none
      | .error e => some (r.throws e.what)
  | .readError message =>
    if r.loop.stopped = false ∧ (readMessage r.loop.assembly r.unread).1 = .error .eof then
      some (r.throws (bytes "Read error: " ++ message))
    else none

end Receiving

end WebSocketsLib
