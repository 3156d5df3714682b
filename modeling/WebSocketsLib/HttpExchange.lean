import WebSocketsLib.Client.HttpClient
import WebSocketsLib.Server.HttpSession

/-!
# An HTTP client and a server

After `connect`, calls of `HttpClient::get` and `HttpClient::post`, one after another, against a
server with any routes.  Between them are the two directions of the socket: the bytes arrive in
order, in chunks of any size.  The client's writes succeed, and its reads meet nothing but the end
of the stream, which is there when the session of the server has ended.
-/

namespace WebSocketsLib

/-- The two ends of the connection. -/
structure HttpExchange where
  /-- `host_`. -/
  host : Bytes
  stopped : Bool := false
  /-- Whether a call is inside `read_response`. -/
  reading : Bool := false
  /-- What the calls have returned. -/
  results : List Bytes := []
  /-- The server, and what the client has written. -/
  server : HttpSession := {}
  /-- What has arrived at the client. -/
  arrived : Socket := []

namespace HttpExchange

/-- What can happen next. -/
inductive Event (ω : Type)
  /-- A call begins. -/
  | call (k : HttpClient.Call) (o : HeaderOrder)
  /-- The next `n` bytes arrive at the server. -/
  | toServer (n : ℕ)
  /-- One pass of the loop of the server. -/
  | pass (w : Surroundings ω)
  /-- The next `n` bytes arrive at the client. -/
  | toClient (n : ℕ)
  /-- `read_response` returns. -/
  | returns

variable {ω : Type}

def step (cfg : SessionConfig) (rt : Routes ω) (s : HttpExchange) : Event ω → Option HttpExchange
  | .call k o =>
    if s.reading then none
    -- `if (stopped) return {};`
    else if s.stopped then some { s with results := s.results ++ [[]] }
    else (s.server.step cfg rt (.send (k.request s.host) o)).map fun server =>
      { s with server, reading := true }
  | .toServer n => (s.server.step cfg rt (.arrive n)).map fun server => { s with server }
  | .pass w => (s.server.step cfg rt (.pass w)).map fun server => { s with server }
  | .toClient n =>
    let left := s.server.log.bytes.drop s.arrived.unread.length
    if 0 < n ∧ n ≤ left.length then some { s with arrived := s.arrived ++ [left.take n] }
    else none
  | .returns =>
    if s.reading ∧ s.server.log.ended ∧ s.arrived.unread = s.server.log.bytes then
      some { s with
        results := s.results ++ [HttpClient.readResponse .eof s.arrived]
        reading := false
        stopped := true }
    else none

/-- The calls among the events. -/
def calls (es : List (Event ω)) : List HttpClient.Call :=
  es.filterMap fun
    | .call k _ => some k
    | _ => none

end HttpExchange

end WebSocketsLib
