import WebSocketsLib.Bytes
import WebSocketsLib.Lib.Chunks

/-!
# The client side of the handshake

The request that `WebSocketClient::connect` writes, and how it reads the response:
`read_http_headers`, and the test of the status.  Resolving and connecting come before.
-/

namespace WebSocketsLib

/-- `req`, for the path and the `key_` of this connection. -/
def connectRequest (host path key : Bytes) : Bytes :=
  bytes "GET " ++ path ++ bytes " HTTP/1.1\r\n" ++
  bytes "Host: " ++ host ++ bytes "\r\n" ++
  bytes "Upgrade: websocket\r\n" ++
  bytes "Connection: Upgrade\r\n" ++
  bytes "Sec-WebSocket-Key: " ++ key ++ bytes "\r\n" ++
  bytes "Sec-WebSocket-Version: 13\r\n\r\n"

/-- `std::getline` on the stream buffer: the line without its newline, and what is left. -/
def getline (buf : Bytes) : Bytes × Bytes :=
  (buf.takeWhile fun c => c != 0x0A, (buf.dropWhile fun c => c != 0x0A).drop 1)

/-- The loop of `read_http_headers`: the text read and the socket after it, `none` when a read
throws.  The buffer is a local variable of the function: what it still holds at the end is gone.
Every round takes a line from the buffer, so `fuel` is the number of bytes and one more. -/
def readHttpHeadersLoop : ℕ → Bytes → Bytes → Socket → Option (Bytes × Socket)
  | 0, _, _, _ => none
  | fuel + 1, out, buf, socket => do
    -- `asio::read_until(socket_, buf, "\r\n")`
    let (_, buf, socket) ← Chunks.readUntil crlf buf socket
    let (line, buf) := getline buf
    if line = [0x0D] ∨ line = [] then pure (out, socket)
    else readHttpHeadersLoop fuel (out ++ line ++ [0x0A]) buf socket

/-- `WebSocketClient::read_http_headers`. -/
def readHttpHeaders (socket : Socket) : Option (Bytes × Socket) :=
  readHttpHeadersLoop (socket.unread.length + 1) [] [] socket

/-- `WebSocketClient::connect`, from the response on: the socket that `read_frame` reads from, or
`none` when it throws. -/
def connect (socket : Socket) : Option Socket := do
  let (response, socket) ← readHttpHeaders socket
  -- `if (response.find("101") == std::string::npos) throw ..`
  if Chunks.findEnd (bytes "101") response = none then none else pure socket

end WebSocketsLib
