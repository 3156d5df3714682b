import WebSocketsLib.Http.Request
import WebSocketsLib.Lib.Chunks

/-!
# Reading a request

The read helpers of `io_helpers.h` and `Server::do_read`.  `none` is an exception of a socket
operation, the end of the stream for example.
-/

namespace WebSocketsLib

/-- `take_front`: the bytes taken and the buffer left. -/
def takeFront (buf : Bytes) (n : ℕ) : Bytes × Bytes :=
  let n := min n buf.length
  (buf.take n, buf.drop n)

/-- `co_read_headers`: the text, and the buffer and the socket after it. -/
def coReadHeaders (socket : Socket) (buffer : Bytes) : Option (Bytes × Bytes × Socket) := do
  let (headerBytes, buffer, socket) ← Chunks.readUntil crlfcrlf buffer socket
  let (text, buffer) := takeFront buffer headerBytes
  pure (text, buffer, socket)

/-- `co_read_body`: the body, and the buffer and the socket after it.  `async_read` reads all it is
asked for or throws, so the loop makes at most one pass and the body is never shortened. -/
def coReadBody (socket : Socket) (buffer : Bytes) (contentLen : ℕ) :
    Option (Bytes × Bytes × Socket) := do
  let take := min buffer.length contentLen
  -- the bytes that the buffer has over-read come first
  let (rest, socket) ← Chunks.readExactly (contentLen - take) socket
  pure (buffer.take take ++ rest, buffer.drop take, socket)

/-- `Server::do_read`.  The buffer is a local variable: what it still holds at the end is gone. -/
def doRead (socket : Socket) : Option (Request × Socket) := do
  -- `asio::streambuf buf;`
  let (headersText, buf, socket) ← coReadHeaders socket []
  let req := parseHttpRequest headersText
  let clen := req.contentLength.getD 0
  if clen ≠ 0 then
    let (body, _, socket) ← coReadBody socket buf clen
    pure ({ req with body }, socket)
  else pure (req, socket)

/-- `n` calls of `do_read`, one after another. -/
def doReads : ℕ → Socket → Option (List Request × Socket)
  | 0, socket => some ([], socket)
  | n + 1, socket => do
    let (req, socket) ← doRead socket
    let (reqs, socket) ← doReads n socket
    pure (req :: reqs, socket)

end WebSocketsLib
