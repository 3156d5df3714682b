import WebSocketsLib.Http.Response
import WebSocketsLib.Lib.Output

/-!
# Writing a response

`Server::do_write` with its write paths, and `prepare_headers` of `io_helpers.h`.

What the operating system does with the files and the socket is an argument (`Outcomes`).  A list
of outcomes that is used up stands for a coroutine that never goes on, which is the same as an
exception here: nothing more is written, and nothing else is done for this connection.
-/

namespace WebSocketsLib

/-- What the preprocessor distinguishes: `__linux__`, `_WIN32`, or neither. -/
inductive Platform
  | linux
  | win32
  | other
  deriving DecidableEq, Repr

/-- The `Socket` of the templates. -/
inductive SocketType
  | tcp
  | ssl
  deriving DecidableEq, Repr

/-- What the code has been compiled for and with. -/
structure Build where
  platform : Platform
  order : HeaderOrder

/-! ### Output -/

/-- Bytes that have been written to the socket: of the head of a response, or of a body. -/
inductive Write
  | head (h : Head) (sent : Bytes)
  | body (sent : Bytes)
  deriving DecidableEq

def Write.sent : Write → Bytes
  | .head _ sent => sent
  | .body sent => sent

/-- A coroutine that writes to the socket. -/
abbrev Writing := Output Write

/-- The bytes of the piece that got out, if any did. -/
def Write.pieces (w : Write) : List Write :=
  if w.sent = [] then [] else [w]

/-- How an `async_write` ends: `none` when all has been written, and otherwise how many bytes got
out before the exception. -/
abbrev WriteOutcome := Option ℕ

/-- `async_write` of a head and the body after it. -/
def asyncWrite (h : Head) (body : Bytes) : WriteOutcome → Writing Unit
  | none => Output.emitAll ((Write.head h h.text).pieces ++ (Write.body body).pieces)
  | some k => do
    Output.emitAll ((Write.head h (h.text.take k)).pieces ++
      (Write.body (body.take (k - h.text.length))).pieces)
    Output.throw

/-- `async_write` of a piece of a body. -/
def asyncWriteBody (body : Bytes) : WriteOutcome → Writing Unit
  | none => Output.emitAll (Write.body body).pieces
  | some k => do
    Output.emitAll (Write.body (body.take k)).pieces
    Output.throw

/-! ### Outcomes -/

/-- One call of `sendfile`. -/
inductive SendfileOutcome
  /-- What has been sent; nothing at the end of the file. -/
  | sent (data : Bytes)
  /-- `EAGAIN`, and whether the `async_wait` after it completes. -/
  | wouldBlock (waited : Bool)
  | error
  deriving DecidableEq, Repr

/-- One call of `async_read_some`. -/
inductive ReadOutcome
  | data (data : Bytes)
  | error
  deriving DecidableEq, Repr

/-- What the operating system does while one response is written. -/
structure Outcomes where
  /-- The `async_write` before the fast paths, or the one of a regular response. -/
  write : WriteOutcome := none
  /-- Whether the fast path can open the file. -/
  opens : Bool := true
  sendfile : List SendfileOutcome := []
  /-- What `TransmitFile` has sent, and whether it reports success. -/
  transmitted : Bytes := []
  transmitOk : Bool := true
  /-- The size of the `stream_file`, if it can be opened. -/
  streamOpens : Bool := true
  streamSize : Option ℕ := none
  /-- The `async_write` of the head before the contents of the `stream_file`. -/
  streamWrite : WriteOutcome := none
  /-- The reads of the `stream_file`, and the write after each. -/
  chunks : List (ReadOutcome × WriteOutcome) := []

/-! ### Files that do not change -/

/-- A regular file; its size is an `off_t`. -/
structure File where
  content : Bytes
  length_lt : content.length < UInt64.size / 2

/-- What the kernel does in a call of `sendfile`. -/
inductive SendfileCall
  /-- It sends so many bytes from the offset on, as far as there are any. -/
  | sends (count : ℕ)
  | wouldBlock (waited : Bool)
  | error
  deriving DecidableEq, Repr

/-- The outcomes of calls of `sendfile`, which advance the offset by what they have sent. -/
def sendfileResults (content : Bytes) : List SendfileCall → ℕ → List SendfileOutcome
  | [], _ => []
  | .sends count :: calls, offset =>
    let data := (content.drop offset).take count
    .sent data :: sendfileResults content calls (offset + data.length)
  | .wouldBlock waited :: calls, offset =>
    .wouldBlock waited :: sendfileResults content calls offset
  | .error :: calls, offset => .error :: sendfileResults content calls offset

/-- The outcomes of reads of the given sizes into the buffer, each of them written. -/
def readResults (content : Bytes) : List ℕ → ℕ → List (ReadOutcome × WriteOutcome)
  | [], _ => []
  | size :: sizes, offset =>
    let data := (content.drop offset).take (min size (64 * 1024))
    (.data data, none) :: readResults content sizes (offset + data.length)

/-! ### Write paths -/

/-- The response after `prepare_headers`, which returns its `to_string_header`. -/
def prepareHeaders (r : Response) (bodySize : ℕ) : Response :=
  if r.hasHeader (bytes "Content-Length") then r
  else r.setHeader (bytes "Content-Length") (decimal bodySize)

/-- `write_regular_response`. -/
def writeRegularResponse (b : Build) (os : Outcomes) (r : Response) : Writing Unit :=
  let bodySize := r.body.length
  let head := (prepareHeaders r bodySize).head b.order
  if bodySize = 0 then asyncWrite head [] os.write
  else asyncWrite head r.body os.write

/-- The loop of `sendfile_fast_path`: what is left at its end. -/
def sendfileLoop : List SendfileOutcome → ℕ → Writing ℕ
  | _, 0 => pure 0
  | [], _ => Output.throw
  | .sent data :: rest, remaining =>
    let data := data.take remaining
    if data = [] then pure remaining
    else do
      Output.emitAll (Write.body data).pieces
      sendfileLoop rest (remaining - data.length)
  | .wouldBlock waited :: rest, remaining =>
    if waited then sendfileLoop rest remaining else Output.throw
  | .error :: _, remaining => pure remaining

/-- `sendfile_fast_path`. -/
def sendfileFastPath (os : Outcomes) (size : ℕ) : Writing Bool :=
  if os.opens then do
    let remaining ← sendfileLoop os.sendfile size
    pure (decide (remaining = 0))
  else pure false

/-- `transmitfile_fast_path`: `TransmitFile` is asked for the whole file, whatever its size. -/
def transmitfileFastPath (os : Outcomes) : Writing Bool :=
  if os.opens then do
    Output.emitAll (Write.body os.transmitted).pieces
    pure os.transmitOk
  else pure false

/-- The loop over the contents of the `stream_file`. -/
def streamLoop : List (ReadOutcome × WriteOutcome) → ℕ → Writing Unit
  | _, 0 => pure ()
  | [], _ => Output.throw
  | (.error, _) :: _, _ => Output.throw
  | (.data data, write) :: rest, remaining =>
    let toRead := min remaining (64 * 1024)
    let data := data.take toRead
    -- `if (n == 0) break;`
    if data = [] then pure ()
    else do
      asyncWriteBody data write
      streamLoop rest (remaining - data.length)

/-- The end of `write_file_response`, with `asio::stream_file`. -/
def writeStreamFile (b : Build) (os : Outcomes) (r : Response) : Writing Unit :=
  if os.streamOpens = false then pure ()
  else
    match os.streamSize with
    | none => pure ()
    | some fileSz =>
      -- `static_cast<std::uintmax_t>(-1)`
      if fileSz = UInt64.size - 1 then pure ()
      else do
        asyncWrite ((prepareHeaders r fileSz).head b.order) [] os.streamWrite
        streamLoop os.chunks fileSz

/-- `write_file_response`. -/
def writeFileResponse (b : Build) (socket : SocketType) (os : Outcomes) (r : Response) :
    Writing Unit :=
  if socket = .tcp ∧ r.sendfileSize > 0 then
    match b.platform with
    | .linux => do
      let r := prepareHeaders r r.sendfileSize
      asyncWrite (r.head b.order) [] os.write
      -- the caller returns whether this is `true` or `false`
      let _ok ← sendfileFastPath os r.sendfileSize
      pure ()
    | .win32 => do
      let r := prepareHeaders r r.sendfileSize
      asyncWrite (r.head b.order) [] os.write
      let ok ← transmitfileFastPath os
      if ok then pure () else writeStreamFile b os r
    | .other => writeStreamFile b os r
  else writeStreamFile b os r

/-- `do_write`. -/
def doWrite (b : Build) (socket : SocketType) (os : Outcomes) (r : Response) : Writing Unit :=
  if r.sendfilePath ≠ [] then writeFileResponse b socket os r
  else writeRegularResponse b os r

end WebSocketsLib
