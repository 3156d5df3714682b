import WebSocketsLib.WebSocket.Connection

/-!
# The read loop on a byte stream

`do_read_loop` reads the header of a frame, sizes `payload_data` for the payload it announces, and
reads the payload.  `ReadStream.step` takes a connection through these two suspensions, with the
bytes that the peer sends; everything else happens as in `WebSocket/Connection.lean`.  `resized` is
what `resize` is asked for: the allocation succeeds in the step `header`, and one that throws is a
`readError`.
-/

namespace WebSocketsLib

/-- `payload_len`, when the reads of the header have completed. -/
def announcedLength (s : Bytes) : Option UInt64 := do
  let (header, s) ← asyncReadAny 2 s
  let b1 := header.getD 1 0
  let mask := (b1 &&& 0x80) != 0
  let len7 := b1 &&& 0x7F
  let maskBytes := if mask then 4 else 0
  let (p, _) ← asyncReadDue (extLenBytes len7 + maskBytes) s
  pure (payloadLen len7 p)

/-- A connection and the bytes that its read loop has not read. -/
structure ReadStream where
  conn : Conn := {}
  /-- From the header of the current frame on. -/
  unread : Bytes := []
  /-- Whether the header of the current frame has been read. -/
  headerRead : Bool := false
  /-- The argument of the last `payload_data.resize`. -/
  resized : ℕ := 0
  deriving DecidableEq, Repr

namespace ReadStream

/-- What can happen next. -/
inductive Event
  /-- The reads of a header complete. -/
  | header
  /-- The read of the payload completes. -/
  | payload
  /-- Any other event of the connection. -/
  | conn (e : Conn.Event)
  deriving DecidableEq, Repr

def step (app : App) (r : ReadStream) : Event → Option ReadStream
  | .header =>
    if r.conn.readLoop = .reading ∧ r.conn.state = .wsOpen ∧ r.headerRead = false then
      (announcedLength r.unread).map fun len => { r with headerRead := true, resized := len.toNat }
    else none
  | .payload =>
    if r.headerRead then do
      let (f, unread) ← decodeFrame r.unread
      let conn ← r.conn.step app (.recv f)
      pure { r with conn, unread, headerRead := false }
    else none
  | .conn (.recv _) => none
  | .conn e => (r.conn.step app e).map fun conn => { r with conn }

end ReadStream

end WebSocketsLib
