import WebSocketsLib.Http.Headers
import Mathlib.Data.List.DropRight

/-!
# Requests and their parser

`http/request.h`, `http/request.cpp`, and `parse_http_request` with its helpers from
`http/utils.h`.
-/

namespace WebSocketsLib

/-- `enum class Method`. -/
inductive Method
  | get
  | post
  | put
  | delete
  | patch
  | head
  | options
  | unknown
  deriving DecidableEq, Repr

/-- `Params`, a `multimap`: sorted by key, equal keys in the order of their insertion. -/
abbrev Params := List (Bytes × Bytes)

/-- `struct Request`. -/
structure Request where
  method : Method := .unknown
  path : Bytes := []
  version : Bytes := []
  target : Bytes := []
  headers : Headers := Headers.empty
  queryParams : Params := []
  body : Bytes := []

/-- `Request::method_enum`. -/
def methodEnum (s : Bytes) : Method :=
  if s = bytes "GET" then .get
  else if s = bytes "POST" then .post
  else if s = bytes "PUT" then .put
  else if s = bytes "DELETE" then .delete
  else if s = bytes "PATCH" then .patch
  else if s = bytes "HEAD" then .head
  else if s = bytes "OPTIONS" then .options
  else .unknown

/-- `get_header_value` of requests and responses. -/
def Headers.getHeaderValue (h : Headers) (key : Bytes) : Bytes :=
  (h.find? key).getD []

/-! ### Numbers -/

/-- The value of a string of decimal digits. -/
def digitsValue (s : Bytes) : ℕ :=
  s.foldl (fun value c => value * 10 + (c - 0x30).toNat) 0

/-- `std::stoull`: the value and the number of characters used; `none` is one of its exceptions.
A minus sign negates modulo `UInt64.size`. -/
def stoull (s : Bytes) : Option (ℕ × ℕ) :=
  let spaces := s.takeWhile isSpace
  let rest := s.dropWhile isSpace
  let sign := if rest.head? = some 0x2D ∨ rest.head? = some 0x2B then 1 else 0
  let digits := (rest.drop sign).takeWhile isDigit
  let value := digitsValue digits
  if digits = [] ∨ value ≥ UInt64.size then none
  else some (if rest.head? = some 0x2D then (UInt64.size - value) % UInt64.size else value,
    spaces.length + sign + digits.length)

/-- `content_length` of requests and responses. -/
def Headers.contentLength (h : Headers) : Option ℕ :=
  let s := h.getHeaderValue (bytes "content-length")
  if s = [] then none
  else
    match stoull s with
    | some (val, index) => if index ≠ s.length then none else some val
    | none => none

/-- `equal_range` of the query parameters. -/
def Params.equalRange (params : Params) (key : Bytes) : List (Bytes × Bytes) :=
  (params.dropWhile fun e => decide (e.1 < key)).takeWhile fun e => !decide (key < e.1)

namespace Request

def hasHeader (r : Request) (key : Bytes) : Bool :=
  r.headers.contains key

def getHeaderValue (r : Request) (key : Bytes) : Bytes :=
  r.headers.getHeaderValue key

def hasParam (r : Request) (key : Bytes) : Bool :=
  !(r.queryParams.equalRange key).isEmpty

/-- `get_param_value`: the empty string when there are not so many values. -/
def getParamValue (r : Request) (key : Bytes) (id : ℕ := 0) : Bytes :=
  ((r.queryParams.equalRange key)[id]?.map Prod.snd).getD []

def getParamValueCount (r : Request) (key : Bytes) : ℕ :=
  (r.queryParams.equalRange key).length

def contentLength (r : Request) : Option ℕ :=
  r.headers.contentLength

def isWsUpgrade (r : Request) : Bool :=
  r.headers.contains (bytes "Upgrade") && r.headers.contains (bytes "Connection")
    && r.headers.contains (bytes "Sec-WebSocket-Key")

end Request

/-! ### Text -/

def ltrim (s : Bytes) : Bytes :=
  s.dropWhile isSpace

def rtrim (s : Bytes) : Bytes :=
  s.rdropWhile isSpace

def trim (s : Bytes) : Bytes :=
  rtrim (ltrim s)

/-- The lines that successive `getline` calls return: a last line need not end with a newline. -/
def getlines (s : Bytes) : List Bytes :=
  let pieces := s.splitOn 0x0A
  if pieces.getLast? = some [] then pieces.dropLast else pieces

/-- `if (!line.empty() && line.back() == '\r') line.pop_back();` -/
def dropCr (line : Bytes) : Bytes :=
  if line.getLast? = some 0x0D then line.dropLast else line

/-- `stream >> word`, with the rest of the stream: `none` when only white space is left. -/
def extractWord (s : Bytes) : Option (Bytes × Bytes) :=
  let s := s.dropWhile isSpace
  if s = [] then none
  else some (s.takeWhile fun c => !isSpace c, s.dropWhile fun c => !isSpace c)

/-! ### `split_target` -/

/-- `query_params.emplace`: after the entries whose key is not greater. -/
def Params.emplace (params : Params) (key value : Bytes) : Params :=
  params.takeWhile (fun e => !decide (key < e.1)) ++
    (key, value) :: params.dropWhile fun e => !decide (key < e.1)

/-- One piece of the query between `&`. -/
def emplaceParam (params : Params) (param : Bytes) : Params :=
  if param = [] then params
  else
    match param.idxOf? 0x3D with
    | some eq => params.emplace (param.take eq) (param.drop (eq + 1))
    | none => params.emplace param []

def splitTarget (target : Bytes) : Bytes × Params :=
  match target.idxOf? 0x3F with
  | none => (target, [])
  | some qm => (target.take qm, ((target.drop (qm + 1)).splitOn 0x26).foldl emplaceParam [])

/-! ### `parse_http_request` -/

/-- The loop over the header lines: it ends at the first empty line. -/
def parseHeaderLines : List Bytes → Headers → Headers
  | [], headers => headers
  | line :: lines, headers =>
    let line := dropCr line
    -- the empty line ends the headers
    if line = [] then headers
    else
      match line.idxOf? 0x3A with
      -- a line without a colon is skipped
      | none => parseHeaderLines lines headers
      | some col =>
        let key := trim (line.take col)
        let pos := col + 1
        let pos := if (line.drop pos).head? = some 0x20 then pos + 1 else pos
        let value := trim (line.drop pos)
        parseHeaderLines lines (headers.set key value)

/-- The words of the request line; a word that is missing stays empty. -/
def parseFirstLine (line : Bytes) : Bytes × Bytes × Bytes :=
  match extractWord line with
  | none => ([], [], [])
  | some (method, rest) =>
    match extractWord rest with
    | none => (method, [], [])
    | some (target, rest) =>
      match extractWord rest with
      | none => (method, target, [])
      | some (version, _) => (method, target, version)

def parseHttpRequest (data : Bytes) : Request :=
  let lines := getlines data
  let (method, target, version) := parseFirstLine (dropCr (lines.headD []))
  let (path, queryParams) := splitTarget target
  { method := methodEnum method
    target, version, path, queryParams
    headers := parseHeaderLines lines.tail Headers.empty }

end WebSocketsLib
