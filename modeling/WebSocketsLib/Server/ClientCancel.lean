import Mathlib.Data.Finmap

/-!
# The cancellation signals of the clients

`client_cancel_` and the functions that lock `mutex_` for it.  `emit_client` looks a signal up in
the locked section and emits on it behind, so that each of its calls is two steps; `emit_all` calls
it for the ids that it has copied in a locked section of its own.  `handle_client` calls
`add_client` and `get_client_slot`, and `remove_client` when it ends, at any time and in any way.

An entry of `client_cancel_` is known by the number of its insertion: what is inserted again for an
id is another entry, with another signal.  What an `emit` does to a session is in
`Server/Stop.lean`.  `do_accept` numbers the clients from 1 on whenever it is started, so several
sessions may have one id.
-/

namespace WebSocketsLib

namespace ClientCancel

/-! ### The state -/

/-- Where `handle_client` is. -/
inductive Point
  /-- Spawned by `do_accept`. -/
  | spawned
  /-- After `add_client`. -/
  | added
  /-- After `get_client_slot`, with the scope guard. -/
  | running
  /-- After `remove_client`. -/
  | finished
  deriving DecidableEq, Repr

/-- One `handle_client`.  `slot` is the entry whose slot it has got. -/
structure Session where
  clientId : ℕ
  point : Point := .spawned
  slot : Option ℕ := none
  deriving DecidableEq, Repr

/-- Where a thread is in `emit_all` or `emit_client`. -/
inductive Emitter
  /-- With the ids left to emit to; there are none when it has returned. -/
  | calling (ids : Finset ℕ)
  /-- In `emit_client(id)` behind the locked section, with the signal of the entry that it has
  found. -/
  | found (id entry : ℕ) (ids : Finset ℕ)
  deriving DecidableEq

structure State where
  /-- The entry of each client. -/
  clientCancel : Finmap fun _ : ℕ => ℕ := ∅
  /-- How many entries have been inserted. -/
  inserted : ℕ := 0
  sessions : ℕ → Option Session := fun _ => none
  emitters : ℕ → Emitter := fun _ => .calling ∅

/-! ### The locked sections -/

namespace State

/-- `add_client`. -/
def addClient (clientId : ℕ) (s : State) : State :=
  if clientId ∈ s.clientCancel then s
  else { s with
    clientCancel := s.clientCancel.insert clientId s.inserted
    inserted := s.inserted + 1 }

/-- `get_client_slot`; `none` is a slot without a signal. -/
def getClientSlot (clientId : ℕ) (s : State) : Option ℕ :=
  s.clientCancel.lookup clientId

/-- `remove_client`. -/
def removeClient (clientId : ℕ) (s : State) : State :=
  { s with clientCancel := s.clientCancel.erase clientId }

def setSession (k : ℕ) (sess : Session) (s : State) : State :=
  { s with sessions := Function.update s.sessions k (some sess) }

def setEmitter (t : ℕ) (em : Emitter) (s : State) : State :=
  { s with emitters := Function.update s.emitters t em }

/-- The locked section of `emit_client(id)`; `ids` are left to emit to after it. -/
def lookUp (t id : ℕ) (ids : Finset ℕ) (s : State) : State :=
  match s.clientCancel.lookup id with
  | some entry => s.setEmitter t (.found id entry ids)
  | none => s.setEmitter t (.calling ids)

end State

/-! ### Steps -/

/-- What can happen next, in a session `k` or a thread `t`. -/
inductive Event
  /-- `do_accept` spawns a `handle_client`. -/
  | spawn (k clientId : ℕ)
  | addClient (k : ℕ)
  | getClientSlot (k : ℕ)
  | removeClient (k : ℕ)
  /-- `emit_client` is called by itself. -/
  | emitClient (t id : ℕ)
  /-- `emit_all` copies the ids. -/
  | copyIds (t : ℕ)
  /-- The locked section of `emit_client`, for an id that is left. -/
  | lookUp (t id : ℕ)
  /-- `sig->emit`. -/
  | emit (t : ℕ)
  deriving DecidableEq, Repr

def step (s : State) : Event → Option State
  | .spawn k clientId =>
    if s.sessions k = none then some (s.setSession k { clientId }) else none
  | .addClient k =>
    (s.sessions k).bind fun sess =>
      if sess.point = .spawned then
        some ((s.addClient sess.clientId).setSession k { sess with point := .added })
      else none
  | .getClientSlot k =>
    (s.sessions k).bind fun sess =>
      if sess.point = .added then
        some (s.setSession k
          { sess with point := .running, slot := s.getClientSlot sess.clientId })
      else none
  | .removeClient k =>
    (s.sessions k).bind fun sess =>
      if sess.point = .running then
        some ((s.removeClient sess.clientId).setSession k { sess with point := .finished })
      else none
  | .emitClient t id =>
    if s.emitters t = .calling ∅ then some (s.setEmitter t (.calling {id})) else none
  | .copyIds t =>
    if s.emitters t = .calling ∅ then some (s.setEmitter t (.calling s.clientCancel.keys))
    else none
  | .lookUp t id =>
    match s.emitters t with
    | .calling ids => if id ∈ ids then some (s.lookUp t id (ids.erase id)) else none
    | .found _ _ _ => none
  | .emit t =>
    match s.emitters t with
    | .found _ _ ids => some (s.setEmitter t (.calling ids))
    | .calling _ => none

end ClientCancel

end WebSocketsLib
