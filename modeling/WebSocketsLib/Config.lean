import WebSocketsLib.Http.Request
import WebSocketsLib.Http.Response

/-!
# The config file

`load_config` with its helpers.  The warnings that it writes to `std::cerr` are left out, `unsigned
long` has 64 bits, and `trim` is that of the HTTP parser, which does the same.
-/

namespace WebSocketsLib

namespace Config

structure StaticMount where
  urlPrefix : Bytes
  root : Bytes
  deriving DecidableEq, Repr

structure ServerConfig where
  address : Bytes := bytes "127.0.0.1"
  port : UInt16 := 8080
  threads : UInt64 := 8
  useSsl : Bool := false
  wwwRoot : Bytes := bytes "./www"
  sslCertFile : Bytes := bytes "certs/localhost.crt"
  sslKeyFile : Bytes := bytes "certs/localhost.key"
  mounts : List StaticMount := []
  deriving DecidableEq, Repr

/-! ### Values -/

/-- `parse_bool`. -/
def parseBool (s : Bytes) : Option Bool :=
  let v := lower s
  if v = bytes "true" ∨ v = bytes "yes" ∨ v = bytes "on" ∨ v = bytes "1" then some true
  else if v = bytes "false" ∨ v = bytes "no" ∨ v = bytes "off" ∨ v = bytes "0" then some false
  else none

/-- `std::stoul`: the value, or `none` for one of its exceptions. -/
def stoul (s : Bytes) : Option ℕ :=
  (stoull s).map Prod.fst

/-- `parse_unsigned_short`. -/
def parseUnsignedShort (s : Bytes) : Option UInt16 :=
  match stoul s with
  | some v => if v > 65535 then none else some (UInt16.ofNat v)
  | none => none

/-- `parse_size_t`. -/
def parseSizeT (s : Bytes) : Option UInt64 :=
  match stoull s with
  | some (v, _) => some (UInt64.ofNat v)
  | none => none

/-! ### Lines -/

/-- The text of an error with the number of its line. -/
def errorAt (what : Bytes) (lineNo : ℕ) : Bytes :=
  what ++ bytes " at line " ++ decimal lineNo

/-- A key in `[server]`. -/
def serverKey (lineNo : ℕ) (cfg : ServerConfig) (key value : Bytes) : Except Bytes ServerConfig :=
  if key = bytes "address" then .ok { cfg with address := value }
  else if key = bytes "port" then
    match parseUnsignedShort value with
    | none => .error (errorAt (bytes "Invalid port") lineNo)
    | some p => .ok { cfg with port := p }
  else if key = bytes "threads" then
    match parseSizeT value with
    | none => .error (errorAt (bytes "Invalid threads") lineNo)
    | some t => .ok { cfg with threads := t }
  else if key = bytes "www_root" then .ok { cfg with wwwRoot := value }
  else .ok cfg

/-- A key in `[ssl]`. -/
def sslKey (lineNo : ℕ) (cfg : ServerConfig) (key value : Bytes) : Except Bytes ServerConfig :=
  if key = bytes "use_ssl" then
    match parseBool value with
    | none => .error (errorAt (bytes "Invalid bool for use_ssl") lineNo)
    | some b => .ok { cfg with useSsl := b }
  else if key = bytes "cert_file" then .ok { cfg with sslCertFile := value }
  else if key = bytes "key_file" then .ok { cfg with sslKeyFile := value }
  else .ok cfg

/-- A key in `[static]`. -/
def staticKey (lineNo : ℕ) (cfg : ServerConfig) (key value : Bytes) : Except Bytes ServerConfig :=
  if key = bytes "mount" then
    -- `iss >> prefix >> path`
    match (extractWord value).bind fun (urlPrefix, rest) =>
      (extractWord rest).map fun (path, _) => StaticMount.mk urlPrefix path with
    | none => .error (errorAt (bytes "Invalid mount spec") lineNo)
    | some m => .ok { cfg with mounts := cfg.mounts ++ [m] }
  else .ok cfg

/-- The variables of `load_config`. -/
structure LoadState where
  cfg : ServerConfig := {}
  sectionName : Bytes := []
  lineNo : ℕ := 0

/-- One pass of the loop over the lines. -/
def loadLine (s : LoadState) (line : Bytes) : Except Bytes LoadState :=
  let lineNo := s.lineNo + 1
  let raw := trim line
  -- comments
  if raw = [] ∨ raw.head? = some 0x23 then .ok { s with lineNo }
  else if raw.head? = some 0x5B ∧ raw.getLast? = some 0x5D then
    .ok { s with lineNo, sectionName := trim ((raw.drop 1).take (raw.length - 2)) }
  else
    match raw.idxOf? 0x3D with
    | none => .ok { s with lineNo }
    | some pos => do
      let key := trim (raw.take pos)
      let value := trim (raw.drop (pos + 1))
      let cfg ←
        if s.sectionName = bytes "server" then serverKey lineNo s.cfg key value
        else if s.sectionName = bytes "ssl" then sslKey lineNo s.cfg key value
        else if s.sectionName = bytes "static" then staticKey lineNo s.cfg key value
        else pure s.cfg
      pure { s with lineNo, cfg }

/-- `load_config`; the file has the given contents, or cannot be opened. -/
def loadConfig (filename : Bytes) : Option Bytes → Except Bytes ServerConfig
  | none => .error (bytes "Could not open config file: " ++ filename)
  | some contents => do
    let s ← (getlines contents).foldlM loadLine {}
    pure s.cfg

end Config

end WebSocketsLib
