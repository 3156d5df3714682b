import WebSocketsLib.Http.RequestText
import WebSocketsLib.Server.DoRead
import WebSocketsLib.Server.ProcessSession
import WebSocketsLib.Server.Routes

/-!
# A connection that is kept alive

`Server::process_session` from the first byte on: each pass of its loop is `do_read`,
`handle_request` and what `SessionLog.step` does with the answer.

On the other side is a peer that writes its requests with `Request::to_string`, and writes the next
one only when the last one has been answered.  Its bytes arrive in chunks of any size.
-/

namespace WebSocketsLib

variable {ω : Type}

/-- What one pass of the loop meets: what the handlers depend on, the files, and the socket. -/
structure Surroundings (ω : Type) where
  world : ω
  fs : FileSystem
  os : Outcomes := {}

/-- The instance of `process_session` with the routes of the server. -/
def Routes.config (rt : Routes ω) (cfg : SessionConfig) : SessionConfig :=
  { cfg with findWs := rt.findWs }

/-- A request and what `handle_request` makes of it.  An upgrade does not get there: `serve` does
not look at the answer. -/
def Routes.exchange (rt : Routes ω) (w : Surroundings ω) (req : Request) : Exchange where
  req
  resp := rt.handleRequest w.world w.fs req
  os := w.os

/-- A connection and its peer. -/
structure HttpSession where
  /-- The requests that the peer has written. -/
  sent : List Request := []
  /-- On the way to the server. -/
  toServer : Bytes := []
  /-- What has arrived and has not been read. -/
  socket : Socket := []
  log : SessionLog := {}

namespace HttpSession

/-- What can happen next. -/
inductive Event (ω : Type)
  /-- The peer writes a request. -/
  | send (r : Request) (o : HeaderOrder)
  /-- The next `n` bytes arrive. -/
  | arrive (n : ℕ)
  /-- One pass of the loop. -/
  | pass (w : Surroundings ω)

def step (cfg : SessionConfig) (rt : Routes ω) (s : HttpSession) : Event ω → Option HttpSession
  | .send r o =>
    if s.sent.length = s.log.served.length then
      some { s with sent := s.sent ++ [r], toServer := s.toServer ++ r.toStringFull o }
    else none
  | .arrive n =>
    if 0 < n ∧ n ≤ s.toServer.length then
      some { s with
        toServer := s.toServer.drop n
        socket := s.socket ++ [s.toServer.take n] }
    else none
  | .pass w => do
    -- otherwise `do_read` waits
    let (req, socket) ← doRead s.socket
    let log ← s.log.step (rt.config cfg) (rt.exchange w req)
    pure { s with socket, log }

/-- The passes among the events. -/
def passes (es : List (Event ω)) : List (Surroundings ω) :=
  es.filterMap fun
    | .pass w => some w
    | _ => none

end HttpSession

end WebSocketsLib
