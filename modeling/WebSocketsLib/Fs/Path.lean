import WebSocketsLib.Bytes
import WebSocketsLib.Lib.Pieces

/-!
# Paths of the file system

The part of `std::filesystem::path` that `serve_static` uses, for POSIX: a path is its native
string, `/` separates names, and there are no root names.  There are no symbolic links:
`weakly_canonical` makes a path absolute and resolves `.` and `..` lexically.
-/

namespace WebSocketsLib

namespace Fs

open Pieces

/-- `path::preferred_separator`. -/
def sep : UInt8 := 0x2F

def dot : Bytes := bytes "."

def dotDot : Bytes := bytes ".."

/-- `is_absolute`. -/
def isAbsolute (p : Bytes) : Bool :=
  decide (p.head? = some sep)

/-- The path ends with a separator. -/
def endsWithSep (p : Bytes) : Bool :=
  decide (p.getLast? = some sep)

/-- The names of a path: its components without the root directory and without the empty component
of a trailing separator. -/
abbrev names (p : Bytes) : List Bytes :=
  pieces sep p

/-- The root directory among the components. -/
def rootDirectory (p : Bytes) : List Bytes :=
  if isAbsolute p then [[sep]] else []

/-- What the iterator of `path` yields: a trailing separator after a name gives an empty
component. -/
def components (p : Bytes) : List Bytes :=
  rootDirectory p ++ names p ++ if names p ≠ [] ∧ endsWithSep p = true then [[]] else []

/-- `relative_path`. -/
def relativePath (p : Bytes) : Bytes :=
  p.dropWhile fun c => decide (c = sep)

/-- `operator/`. -/
def append (p q : Bytes) : Bytes :=
  if isAbsolute q then q
  else if p = [] ∨ endsWithSep p = true then p ++ q
  else p ++ sep :: q

/-- `absolute`, for the current directory `cwd`. -/
def absolute (cwd p : Bytes) : Bytes :=
  if isAbsolute p then p else append cwd p

/-- One name in `lexically_normal`; the names before it, last one first.  At the root `..` has no
effect. -/
def normalStep (rooted : Bool) (before : List Bytes) (name : Bytes) : List Bytes :=
  if name = dot then before
  else if name = dotDot then
    match before with
    | [] => if rooted then [] else [dotDot]
    | last :: rest => if last = dotDot then dotDot :: before else rest
  else name :: before

/-- The names that are left when `.` and `..` are resolved. -/
def normalNames (rooted : Bool) (ns : List Bytes) : List Bytes :=
  (ns.foldl (normalStep rooted) []).reverse

/-- The path names a directory: it ends with a separator, `.` or `..`. -/
def namesDirectory (p : Bytes) : Bool :=
  endsWithSep p || decide ((names p).getLast? = some dot) ||
    decide ((names p).getLast? = some dotDot)

/-- `lexically_normal`. -/
def lexicallyNormal (p : Bytes) : Bytes :=
  if p = [] then []
  else
    let ns := normalNames (isAbsolute p) (names p)
    let slash := if ns ≠ [] ∧ ns.getLast? ≠ some dotDot ∧ namesDirectory p = true then [sep] else []
    if isAbsolute p then sep :: ([sep].intercalate ns ++ slash)
    else if ns = [] then dot
    else [sep].intercalate ns ++ slash

/-- `weakly_canonical`. -/
def weaklyCanonical (cwd p : Bytes) : Bytes :=
  lexicallyNormal (absolute cwd p)

/-- `filename`: what follows the last separator. -/
def filename (p : Bytes) : Bytes :=
  (p.reverse.takeWhile fun c => decide (c ≠ sep)).reverse

/-- `extension`: from the last dot of the filename on, unless that is its first character. -/
def extension (p : Bytes) : Bytes :=
  let f := filename p
  let ext := f.reverse.takeWhile fun c => decide (c ≠ 0x2E)
  if f = dotDot ∨ f.length ≤ ext.length + 1 then [] else 0x2E :: ext.reverse

end Fs

/-- The file system as far as `serve_static` asks it. -/
structure FileSystem where
  /-- `current_path`. -/
  cwd : Bytes
  cwd_isAbsolute : Fs.isAbsolute cwd = true
  /-- Whether `weakly_canonical` sets its `error_code`. -/
  canonicalError : Bytes → Bool
  /-- `fs::exists`; `none` when it sets its `error_code`. -/
  fileExists : Bytes → Option Bool
  /-- `file_size`; `none` when it throws, for anything but a regular file. -/
  fileSize : Bytes → Option ℕ

end WebSocketsLib
