import WebSocketsLib.Fs.Path
import WebSocketsLib.Http.Request
import WebSocketsLib.Http.Response

/-!
# Static files

`Server::MountStatic` and `Server::serve_static`, with `ext_type`.
-/

namespace WebSocketsLib

/-! ### Mounts -/

/-- `PrefixComparator`: longer prefixes first. -/
def prefixComparator (a b : Bytes) : Bool :=
  if a.length ≠ b.length then decide (a.length > b.length) else decide (a < b)

/-- `static_mounts_`: the prefixes with their roots, in the order of the map. -/
abbrev Mounts := List (Bytes × Bytes)

/-- `static_mounts_.emplace`: a prefix that is there already keeps its root. -/
def Mounts.emplace (mounts : Mounts) (urlPrefix root : Bytes) : Mounts :=
  let before := mounts.takeWhile fun m => prefixComparator m.1 urlPrefix
  let after := mounts.dropWhile fun m => prefixComparator m.1 urlPrefix
  if (after.head?.map Prod.fst) = some urlPrefix then mounts
  else before ++ (urlPrefix, root) :: after

/-- `MountStatic`; `none` when `weakly_canonical` throws. -/
def mountStatic (fs : FileSystem) (mounts : Mounts) (urlPrefix root : Bytes) : Option Mounts :=
  if root ≠ [] ∧ Fs.isAbsolute root = false then
    if fs.canonicalError root then none
    else some (mounts.emplace urlPrefix (Fs.weaklyCanonical fs.cwd root))
  else some (mounts.emplace urlPrefix root)

/-- The table after a list of calls of `MountStatic`. -/
def mountAll (fs : FileSystem) : List (Bytes × Bytes) → Mounts → Option Mounts
  | [], mounts => some mounts
  | (urlPrefix, root) :: rest, mounts =>
    (mountStatic fs mounts urlPrefix root).bind (mountAll fs rest)

/-- The table after a list of calls of `MountStatic`, of which those that throw change nothing. -/
def mountCalls (fs : FileSystem) (calls : List (Bytes × Bytes)) (mounts : Mounts) : Mounts :=
  calls.foldl (fun mounts call => (mountStatic fs mounts call.1 call.2).getD mounts) mounts

/-- The loop of `serve_static`: the first mount whose prefix begins the path. -/
def Mounts.select (mounts : Mounts) (path : Bytes) : Option (Bytes × Bytes) :=
  mounts.find? fun m => m.1.isPrefixOf path

/-! ### `serve_static` -/

/-- The table of `ext_type`. -/
def extTypes : List (Bytes × Bytes) :=
  [(bytes "html", bytes "text/html; charset=utf-8"),
    (bytes "htm", bytes "text/html; charset=utf-8"),
    (bytes "css", bytes "text/css"),
    (bytes "js", bytes "application/javascript"),
    (bytes "mjs", bytes "application/javascript"),
    (bytes "json", bytes "application/json"),
    (bytes "txt", bytes "text/plain; charset=utf-8"),
    (bytes "xml", bytes "application/xml"),
    (bytes "svg", bytes "image/svg+xml"),
    (bytes "png", bytes "image/png"),
    (bytes "jpg", bytes "image/jpeg"),
    (bytes "jpeg", bytes "image/jpeg"),
    (bytes "gif", bytes "image/gif"),
    (bytes "webp", bytes "image/webp"),
    (bytes "ico", bytes "image/x-icon"),
    (bytes "pdf", bytes "application/pdf"),
    (bytes "wasm", bytes "application/wasm"),
    (bytes "mp4", bytes "video/mp4")]

/-- `ext_type`. -/
def extType (ext : Bytes) : Bytes :=
  let e := if ext.head? = some 0x2E then ext.tail else ext
  ((extTypes.find? fun t => decide (t.1 = lower e)).map Prod.snd).getD
    (bytes "application/octet-stream")

/-- The part of the path after the prefix of the mount; a directory stands for its `index.html`. -/
def mountTail (urlPrefix path : Bytes) : Bytes :=
  let tail := path.drop urlPrefix.length
  if tail = [] ∨ tail.getLast? = some 0x2F then tail ++ bytes "index.html" else tail

/-- `root / fs::path(tail).relative_path()`. -/
def srvPath (root tail : Bytes) : Bytes :=
  Fs.append root (Fs.relativePath tail)

/-- `serve_static`; `none` when `file_size` throws. -/
def serveStatic (fs : FileSystem) (mounts : Mounts) (req : Request) : Option Response :=
  if req.method ≠ .get then some (Response.badRequest (bytes "Method not supported"))
  else
    -- both strings stay empty when no prefix matches
    let (urlPrefix, root) := (mounts.select req.path).getD ([], [])
    if urlPrefix = [] then some (Response.notFound (bytes "Mount does not exist"))
    else
      let path := srvPath root (mountTail urlPrefix req.path)
      let canonSrvPath := Fs.weaklyCanonical fs.cwd path
      -- the texts are compared, and a shorter path compares as a whole
      if fs.canonicalError path ∨ canonSrvPath.take root.length ≠ root then
        some (Response.notFound (bytes "Different root path"))
      else
        let res := Response.text (bytes "OK")
        if fs.fileExists canonSrvPath ≠ some true then
          some (Response.notFound (bytes "File not found in root directory"))
        else
          let res := res.setHeader (bytes "content-type") (extType (Fs.extension canonSrvPath))
          (fs.fileSize canonSrvPath).map fun size =>
            { res with sendfilePath := canonSrvPath, sendfileSize := size }

end WebSocketsLib
