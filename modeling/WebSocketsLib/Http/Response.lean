import WebSocketsLib.Http.Headers
import Mathlib.Data.Int.Notation

/-!
# Responses and their text

`http/response.h` and `http/response.cpp`, with `build_101_response` of `http/utils.h`.

The text of a response lists the headers in the iteration order of the `unordered_map`, which is
unspecified (`HeaderOrder`).
-/

namespace WebSocketsLib

/-- The iteration order of `Headers`. -/
structure HeaderOrder where
  order : List (Bytes × Bytes) → List (Bytes × Bytes)
  perm : ∀ entries, (order entries).Perm entries

/-- `std::to_string` of an unsigned number. -/
def decimal (n : ℕ) : Bytes :=
  bytes (toString n)

/-! ### The head of a message -/

/-- The start line and the header lines of a message. -/
structure Head where
  startLine : Bytes
  entries : List (Bytes × Bytes)
  deriving DecidableEq

/-- One header line. -/
def headerLine (e : Bytes × Bytes) : Bytes :=
  e.1 ++ bytes ": " ++ e.2 ++ crlf

/-- The text up to the empty line. -/
def Head.text (h : Head) : Bytes :=
  h.startLine ++ crlf ++ h.entries.flatMap headerLine ++ crlf

/-! ### `Response` -/

structure Response where
  version : Bytes := bytes "HTTP/1.1"
  status : ℤ := 200
  headers : Headers := Headers.empty
  body : Bytes := []
  sendfilePath : Bytes := []
  sendfileSize : ℕ := 0

namespace Response

def hasHeader (r : Response) (key : Bytes) : Bool :=
  r.headers.contains key

def setHeader (r : Response) (key value : Bytes) : Response :=
  { r with headers := r.headers.set key value }

def setContent (r : Response) (s contentType : Bytes) : Response :=
  { r with body := s, headers := r.headers.set (bytes "Content-Type") contentType }

/-- `set_redirect`. -/
def setRedirect (r : Response) (url : Bytes) (st : ℤ := 302) : Response :=
  { r with status := st, headers := r.headers.set (bytes "location") url }

/-- `text`, with `charset` at its default. -/
def text (s : Bytes) (st : ℤ := 200) : Response :=
  { status := st : Response }.setContent s (bytes "text/plain; charset=" ++ bytes "utf-8")

/-- `not_found`. -/
def notFound (what : Bytes := bytes "Not Found") : Response :=
  { status := 404 : Response }.setContent
    (bytes "<html><body><h1>404 Not Found</h1><p>" ++ what ++ bytes "</p></body></html>")
    (bytes "text/html")

/-- `bad_request`. -/
def badRequest (message : Bytes := bytes "Bad Request") : Response :=
  { status := 400 : Response }.setContent
    (bytes "\x7b\"error\":\"" ++ message ++ bytes "\"\x7d") (bytes "application/json")

def reasonPhrase (st : ℤ) : Bytes :=
  if st = 200 then bytes "OK"
  else if st = 302 then bytes "Found"
  else if st = 400 then bytes "Bad Request"
  else if st = 404 then bytes "Not Found"
  else if st = 500 then bytes "Internal Server Error"
  else []

/-- The first line of both texts. -/
def statusLine (r : Response) : Bytes :=
  r.version ++ bytes " " ++ bytes (toString r.status) ++ bytes " " ++ reasonPhrase r.status

/-- The head whose text is `to_string_header`. -/
def head (o : HeaderOrder) (r : Response) : Head where
  startLine := r.statusLine
  entries := o.order r.headers.entries

def toStringHeader (o : HeaderOrder) (r : Response) : Bytes :=
  (r.head o).text

/-- The head of `to_string`: a body without a `Content-Length` gets one. -/
def fullHead (o : HeaderOrder) (r : Response) : Head where
  startLine := r.statusLine
  entries := o.order r.headers.entries ++
    if r.body ≠ [] ∧ r.headers.contains (bytes "content-length") = false then
      [(bytes "Content-Length", decimal r.body.length)]
    else []

/-- `to_string`. -/
def toStringFull (o : HeaderOrder) (r : Response) : Bytes :=
  (r.fullHead o).text ++ r.body

end Response

/-- `build_101_response`. -/
def build101Response (acceptKey : Bytes) : Response :=
  (({ status := 101 : Response }.setHeader (bytes "Upgrade") (bytes "websocket")).setHeader
    (bytes "Connection") (bytes "Upgrade")).setHeader (bytes "Sec-Websocket-Accept") acceptKey

end WebSocketsLib
