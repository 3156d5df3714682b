import WebSocketsLib.Http.Request
import WebSocketsLib.Http.Response

/-!
# The text of a request

`Request::method_str` and `Request::to_string`.
-/

namespace WebSocketsLib

/-- `Request::method_str`. -/
def methodStr : Method → Bytes
  | .get => bytes "GET"
  | .post => bytes "POST"
  | .put => bytes "PUT"
  | .delete => bytes "DELETE"
  | .patch => bytes "PATCH"
  | .head => bytes "HEAD"
  | .options => bytes "OPTIONS"
  | .unknown => bytes "UNKNOWN"

namespace Request

/-- The first line. -/
def requestLine (r : Request) : Bytes :=
  methodStr r.method ++ bytes " " ++ r.target ++ bytes " " ++ r.version

/-- The header that `to_string` adds. -/
def addedFields (r : Request) : List (Bytes × Bytes) :=
  if r.body ≠ [] ∧ r.headers.contains (bytes "content-length") = false then
    [(bytes "Content-Length", decimal r.body.length)]
  else []

/-- The head of `to_string`. -/
def fullHead (o : HeaderOrder) (r : Request) : Head where
  startLine := r.requestLine
  entries := o.order r.headers.entries ++ r.addedFields

/-- `Request::to_string`. -/
def toStringFull (o : HeaderOrder) (r : Request) : Bytes :=
  (r.fullHead o).text ++ r.body

end Request

end WebSocketsLib
