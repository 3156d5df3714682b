import WebSocketsLib.Server.ServeStatic
import WebSocketsLib.WebSocket.ParsedFrame
import Mathlib.Data.List.AList

/-!
# Routes

What a program registers before it starts the server: `Server::add_route` with `Get`, `Post`, `Put`
and `Delete`, `Server::MountStatic`, and `Server::WebSocketRouter` with its `WsRouter`.  Then
`Server::find_ws` and `Server::handle_request`, which look it up (`server.h`, `server.cpp`).

What a handler answers can depend on more than the request: that is the argument of type `ω`.
-/

namespace WebSocketsLib

variable {ω : Type}

/-- `HandlerAsync`; `none` when it throws. -/
abbrev Handler (ω : Type) := ω → Request → Option Response

/-- A call of a function of `WsRouter`. -/
inductive WsSetter
  | onOpen
  | onMessage
  | onClose
  deriving DecidableEq, Repr

/-- What is registered in one statement. -/
inductive Registration (ω : Type)
  /-- `Get`, `Post`, `Put` and `Delete`. -/
  | addRoute (method : Method) (path : Bytes) (h : Handler ω)
  | mountStatic (urlPrefix root : Bytes)
  | webSocketRouter (path : Bytes) (setters : List WsSetter)

/-- The tables of the server. -/
structure Routes (ω : Type) where
  routes : AList fun _ : Method => AList fun _ : Bytes => Handler ω := ∅
  staticMounts : Mounts := []
  wsRoutes : AList fun _ : Bytes => WsHandlers := ∅

/-- The functions of `WsRouter`. -/
def WsHandlers.set (handlers : WsHandlers) : WsSetter → WsHandlers
  | .onOpen => { handlers with onOpen := true }
  | .onMessage => { handlers with onMessage := true }
  | .onClose => { handlers with onClose := true }

namespace Routes

/-- `add_route`: `emplace` does nothing when the path is there already. -/
def addRoute (method : Method) (path : Bytes) (h : Handler ω) (rt : Routes ω) : Routes ω :=
  -- `routes_[method]`
  let table := (rt.routes.lookup method).getD ∅
  { rt with
    routes := rt.routes.insert method (if path ∈ table then table else table.insert path h) }

/-- `commit_ws_route`, which the destructor of `WsRouter` calls. -/
def commitWsRoute (path : Bytes) (handlers : WsHandlers) (rt : Routes ω) : Routes ω :=
  { rt with wsRoutes := rt.wsRoutes.insert path handlers }

/-- A registration; `MountStatic` changes nothing when it throws. -/
def register (fs : FileSystem) (rt : Routes ω) : Registration ω → Routes ω
  | .addRoute method path h => rt.addRoute method path h
  | .mountStatic urlPrefix root => { rt with
      staticMounts := (mountStatic fs rt.staticMounts urlPrefix root).getD rt.staticMounts }
  | .webSocketRouter path setters => rt.commitWsRoute path (setters.foldl WsHandlers.set {})

/-- The tables after all registrations. -/
def registerAll (fs : FileSystem) (regs : List (Registration ω)) : Routes ω :=
  regs.foldl (register fs) {}

/-- `find_ws`. -/
def findWs (rt : Routes ω) (path : Bytes) : Option WsHandlers :=
  rt.wsRoutes.lookup path

/-- `handle_request`; `none` when the handler or `serve_static` throws. -/
def handleRequest (rt : Routes ω) (world : ω) (fs : FileSystem) (req : Request) :
    Option Response :=
  match (rt.routes.lookup req.method).bind fun table => table.lookup req.path with
  | some h => h world req
  | none =>
    if rt.staticMounts ≠ [] then serveStatic fs rt.staticMounts req
    else some Response.notFound

end Routes

end WebSocketsLib
