import WebSocketsLib.Client.Handshake
import WebSocketsLib.Http.RequestText
import Mathlib.Algebra.GroupWithZero.Nat
import Mathlib.Tactic.Common

/-!
# The HTTP client

`HttpClient::read_response`: the head is read with `read_until`, which may read more, and the rest
with `read_some` until the stream ends.  `HttpClient::send_request`, up to its call of
`read_response`.
-/

namespace WebSocketsLib

namespace HttpClient

/-- The `error_code` at the end of the stream. -/
inductive StreamEnd
  | eof
  | streamTruncated
  | other
  deriving DecidableEq, Repr

theorem length_getline_lt {buf : Bytes} (h : buf ≠ []) : (getline buf).2.length < buf.length := by
  cases buf with
  | nil => exact absurd rfl h
  | cons c buf =>
    rw [getline, List.length_drop, List.dropWhile_cons]
    split_ifs
    · have hle := (List.dropWhile_sublist (fun c : UInt8 => c != 0x0A) (l := buf)).length_le
      rw [List.length_cons]
      omega
    · rw [List.length_cons]
      omega

/-- `while (std::getline(is, line) && line != "\r") headers += line + "\n"`, and what is left in the
buffer. -/
def readHeaderLines (buf : Bytes) : Bytes × Bytes :=
  if _hbuf : buf = [] then ([], [])
  else
    let line := (getline buf).1
    if line = [0x0D] then ([], (getline buf).2)
    else
      let (headers, leftover) := readHeaderLines (getline buf).2
      (line ++ 0x0A :: headers, leftover)
  termination_by buf.length
  decreasing_by exact length_getline_lt _hbuf

/-- The size of `tmp`. -/
def tmpSize : ℕ := 8192

/-- `read_some` into `tmp`: what it has read, and the socket after it. -/
def readSome (chunk : Bytes) (socket : Socket) : Bytes × Socket :=
  (chunk.take tmpSize, if chunk.length ≤ tmpSize then socket else chunk.drop tmpSize :: socket)

/-- How much there is to read. -/
def toRead (socket : Socket) : ℕ :=
  (socket.map fun chunk => chunk.length + 1).sum

theorem toRead_readSome_lt (chunk : Bytes) (socket : Socket) :
    toRead (readSome chunk socket).2 < toRead (chunk :: socket) := by
  have hcons : ∀ chunk, toRead (chunk :: socket) = chunk.length + 1 + toRead socket := by
    intro chunk
    rw [toRead, List.map_cons, List.sum_cons]
    rfl
  rw [readSome]
  dsimp only
  split_ifs with hsize
  · rw [hcons]
    omega
  · rw [hcons, hcons, List.length_drop]
    rw [tmpSize] at hsize ⊢
    omega

/-- The loop that appends what `read_some` reads, until it reports the end of the stream or another
error. -/
def readBody (socket : Socket) (response : Bytes) : Bytes :=
  match socket with
  | [] => response
  | chunk :: rest => readBody (readSome chunk rest).2 (response ++ (readSome chunk rest).1)
  termination_by toRead socket
  decreasing_by exact toRead_readSome_lt chunk rest

/-- `read_response`.  The stream ends with `last`. -/
def readResponse (last : StreamEnd) (socket : Socket) : Bytes :=
  match Chunks.readUntil crlfcrlf [] socket with
  | some (_, buf, socket) =>
    let (headers, leftover) := readHeaderLines buf
    readBody socket (headers ++ leftover)
  | none =>
    -- the end of the stream is no error here
    if last = .other then []
    else
      let (headers, leftover) := readHeaderLines socket.unread
      readBody [] (headers ++ leftover)

/-! ### `send_request` -/

/-- The headers that are set before those of the caller. -/
def defaultHeaders (host : Bytes) (method : Method) (body : Bytes) : Headers :=
  let headers := (Headers.empty.set (bytes "Host") host).set (bytes "Connection") (bytes "close")
  if method = .post then
    (headers.set (bytes "Content-Length") (decimal body.length)).set (bytes "Content-Type")
      (bytes "text/plain; charset=utf-8")
  else headers

/-- The request that is written.  `headers` are the entries of the `std::map`, in its order. -/
def request (host : Bytes) (method : Method) (target body : Bytes)
    (headers : List (Bytes × Bytes)) : Request where
  method
  version := bytes "HTTP/1.1"
  target
  body
  headers := headers.foldl (fun h kv => h.set kv.1 kv.2) (defaultHeaders host method body)

/-- A call of `get` or `post`. -/
inductive Call
  | get (target : Bytes) (headers : List (Bytes × Bytes))
  | post (target body : Bytes) (headers : List (Bytes × Bytes))
  deriving DecidableEq, Repr

namespace Call

def method : Call → Method
  | .get _ _ => .get
  | .post _ _ _ => .post

def target : Call → Bytes
  | .get target _ => target
  | .post target _ _ => target

/-- `get` sends an empty body. -/
def body : Call → Bytes
  | .get _ _ => []
  | .post _ body _ => body

def headers : Call → List (Bytes × Bytes)
  | .get _ headers => headers
  | .post _ _ headers => headers

/-- The request of a call. -/
def request (host : Bytes) (k : Call) : Request :=
  HttpClient.request host k.method k.target k.body k.headers

end Call

end HttpClient

end WebSocketsLib
