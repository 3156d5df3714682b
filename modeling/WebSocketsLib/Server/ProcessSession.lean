import WebSocketsLib.Server.DoWrite
import WebSocketsLib.Server.Sessions

/-!
# The loop of a session

`Server::process_session` with what it writes.  One pass of the loop is one step: it takes the
request that `do_read` has returned, the response that `handle_request` returns for it, and what
the operating system does while that is written.
-/

namespace WebSocketsLib

/-- A request and what comes of it. -/
structure Exchange where
  req : Request
  /-- What `handle_request` returns; `none` when it throws. -/
  resp : Option Response
  os : Outcomes

/-- The instance of `process_session`. -/
structure SessionConfig extends ServerConfig, Build where
  /-- `ws_accept_key`. -/
  wsAcceptKey : Bytes → Bytes

namespace SessionConfig

/-- The socket that `handle_client` passes on. -/
def socketType (cfg : SessionConfig) : SocketType :=
  if cfg.useSsl then .ssl else .tcp

end SessionConfig

/-- `async_write` of `to_string`. -/
def writeRefusal (b : Build) (os : Outcomes) (r : Response) : Writing Unit :=
  asyncWrite (r.fullHead b.order) r.body os.write

/-- One pass of the loop after `do_read`, and whether there is another. -/
def serve (cfg : SessionConfig) (x : Exchange) : Writing Bool :=
  if x.req.isWsUpgrade then
    match cfg.findWs x.req.path with
    | none => do
      writeRefusal cfg.toBuild x.os (Response.notFound (bytes "No such route for ws!"))
      pure false
    | some _ =>
      let key := x.req.getHeaderValue (bytes "Sec-WebSocket-Key")
      if key = [] then do
        writeRefusal cfg.toBuild x.os (Response.badRequest (bytes "No Sec-WebSocket-Key"))
        pure false
      else do
        -- `process_session_ws`: what is written after this belongs to the `WebSocket`
        doWrite cfg.toBuild cfg.socketType x.os (build101Response (cfg.wsAcceptKey key))
        pure false
  else
    match x.resp with
    | none => Output.throw
    | some resp => do
      let keepAlive := Server.keepAlive x.req
      let resp := resp.setHeader (bytes "Connection")
        (if keepAlive then bytes "keep-alive" else bytes "close")
      doWrite cfg.toBuild cfg.socketType x.os resp
      pure keepAlive

/-- What a session has written for each request it has read, and whether it has ended. -/
structure SessionLog where
  served : List (List Write) := []
  ended : Bool := false

namespace SessionLog

/-- One pass of the loop of `process_session`. -/
def step (cfg : SessionConfig) (log : SessionLog) (x : Exchange) : Option SessionLog :=
  if log.ended then none
  else some {
    served := log.served ++ [(serve cfg x).out]
    ended := decide ((serve cfg x).result ≠ some true) }

/-- The bytes on the socket. -/
def bytes (log : SessionLog) : Bytes :=
  log.served.flatten.flatMap Write.sent

end SessionLog

end WebSocketsLib
