import WebSocketsLib.WebSocket.ParsedFrame

/-!
# One WebSocket as a state machine

The code of `WebSocket` between two suspension points is one step.  A coroutine (the read loop, or
a task that a public function has spawned on `write_strand_`) is suspended either in a read of the
socket, or inside the writing loop of `do_write`; `runEffects` executes a coroutine from one
suspension to the next.

The machine starts with the constructed `WebSocket`, the connection `{}`.  `step` takes one event:
the call of `start`, a public function called from outside (before `start` too), the strand starting
its next task, a read or a write that completes or fails, the read loop going on with a frame that
has been read.  What the application calls from inside its callbacks is the parameter `App.react`.
-/

namespace WebSocketsLib

/-- `WS_OPEN` and `WS_CLOSED`. -/
inductive WsState
  | wsOpen
  | wsClosed
  deriving DecidableEq, Repr

/-- A user callback with its arguments. -/
inductive Callback
  | onOpen
  | onMessage (msg : Bytes)
  | onClose (code : UInt16) (reason : Bytes)
  deriving DecidableEq, Repr

/-- A call of a public function. -/
inductive Call
  | close (code : UInt16) (reason : Bytes)
  | closeAsync (code : UInt16) (reason : Bytes)
  | sendTextAsync (payload : Bytes)
  | sendBinaryAsync (payload : Bytes)
  deriving DecidableEq, Repr

/-- The application: the callbacks it has installed, and what it calls from inside the last of the
callbacks it has received. -/
structure App where
  handlers : WsHandlers
  react : List Callback → List Call := fun _ => []

/-- A coroutine spawned on `write_strand_` that has not started. -/
inductive Task
  | closeAsync (code : UInt16) (reason : Bytes)
  | sendText (payload : Bytes)
  | sendBinary (payload : Bytes)
  deriving DecidableEq, Repr

/-- Who is inside `do_write`. -/
inductive Owner
  | readLoop
  | task
  deriving DecidableEq, Repr

/-- A coroutine suspended in the writing loop of `do_write`: the buffer it has handed to the socket,
and what it does after `do_write`.  `queuedAt` is how many frames had been queued when its own
was. -/
structure Writer where
  owner : Owner
  buf : Bytes
  rest : List Effect
  queuedAt : ℕ
  deriving DecidableEq, Repr

/-- Where `do_read_loop` is. -/
inductive ReadLoop
  /-- `start` has not been called. -/
  | notStarted
  /-- In `async_read_any`. -/
  | reading
  /-- The last read of the frame has completed. -/
  | got (f : WsFrame)
  /-- In `handle_parsed_frame`, inside `do_write`. -/
  | handling
  /-- `start` has returned. -/
  | returned
  /-- An exception has left `start`. -/
  | threw
  deriving DecidableEq, Repr

/-- What had been queued and written when `close` shut the socket down.  `closeQueuedAt` is the
number of frames queued up to and including the Close frame, when the `close` follows
`send_close_with_reason`. -/
structure Shutdown where
  closeQueuedAt : Option ℕ
  queued : List Bytes
  written : List Bytes
  deriving DecidableEq, Repr

/-- The state of one `WebSocket` and of its coroutines. -/
structure Conn where
  state : WsState := .wsOpen
  writeQueue : List Bytes := []
  isWriting : Bool := false
  /-- The coroutines inside the writing loop. -/
  writers : List Writer := []
  /-- The queue of the strand. -/
  tasks : List Task := []
  readLoop : ReadLoop := .notStarted
  /-- The `FrameBody` of the read loop. -/
  fb : FrameBody := FrameBody.ofMaxSize maxMsgSize
  /-- Whether `server_cleanup_` has been called. -/
  cleanedUp : Bool := false
  /-- The callbacks so far. -/
  trace : List Callback := []
  /-- The arguments of the `do_write` calls so far. -/
  queued : List Bytes := []
  /-- The buffers that have been written completely. -/
  written : List Bytes := []
  shutdown : Option Shutdown := none
  deriving DecidableEq, Repr

namespace Conn

/-! ### Public functions and callbacks -/

def spawn (c : Conn) (t : Task) : Conn :=
  { c with tasks := c.tasks ++ [t] }

/-- A call made while `state_` is `WS_CLOSED`: `close` loses its compare-exchange and the
`send_*_async` return, only `close_async` does not look at the state. -/
def callClosed (c : Conn) : Call → Conn
  | .closeAsync code reason => c.spawn (.closeAsync code reason)
  | _ => c

/-- `close`.  The calls that `on_close` makes find the state already closed. -/
def close (app : App) (closeQueuedAt : Option ℕ) (code : UInt16) (reason : Bytes) (c : Conn) :
    Conn :=
  match c.state with
  | .wsClosed => c
  | .wsOpen =>
    -- only the call that wins the compare-exchange gets here
    let c := { c with
      state := .wsClosed
      shutdown := some { closeQueuedAt, queued := c.queued, written := c.written } }
    let c :=
      if app.handlers.onClose then
        let trace := c.trace ++ [.onClose code reason]
        (app.react trace).foldl callClosed { c with trace }
      else c
    { c with cleanedUp := true }

/-- A call of a public function. -/
def call (app : App) (c : Conn) : Call → Conn
  | .close code reason => c.close app none code reason
  | .closeAsync code reason => c.spawn (.closeAsync code reason)
  | .sendTextAsync payload => if c.state = .wsOpen then c.spawn (.sendText payload) else c
  | .sendBinaryAsync payload => if c.state = .wsOpen then c.spawn (.sendBinary payload) else c

/-- A user callback, with the calls that the application makes from inside it. -/
def callback (app : App) (cb : Callback) (c : Conn) : Conn :=
  let trace := c.trace ++ [cb]
  (app.react trace).foldl (call app) { c with trace }

/-! ### Coroutines -/

/-- A coroutine has nothing more to do before the next iteration: the read loop tests `state_`, a
task ends. -/
def finish (owner : Owner) (c : Conn) : Conn :=
  match owner with
  | .task => c
  | .readLoop => { c with readLoop := if c.state = .wsOpen then .reading else .returned }

/-- `WebSocket::start`, up to its first suspension. -/
def start (app : App) (c : Conn) : Conn :=
  -- `on_open` is called whether or not `close` has been called before
  let c := if app.handlers.onOpen then c.callback app .onOpen else c
  c.finish .readLoop

/-- `write_queue_.push_back`. -/
def push (frame : Bytes) (c : Conn) : Conn :=
  { c with writeQueue := c.writeQueue ++ [frame], queued := c.queued ++ [frame] }

/-- A coroutine enters the writing loop, and is suspended in its first `async_write_any`. -/
def enterWriting (owner : Owner) (rest : List Effect) (c : Conn) : Conn :=
  { c with
    isWriting := true
    writers := c.writers ++
      [{ owner, buf := c.writeQueue.headD [], rest, queuedAt := c.queued.length }]
    readLoop := if owner = .readLoop then .handling else c.readLoop }

/-- The effects of a coroutine up to its next suspension.  `queuedAt` is how many frames had been
queued when its last one was. -/
def runEffects (app : App) (owner : Owner) : List Effect → Option ℕ → Conn → Conn
  | [], _, c => c.finish owner
  | .doWrite frame :: rest, _, c =>
    let c := c.push frame
    -- `if (is_writing_) co_return;`
    if c.isWriting then runEffects app owner rest (some c.queued.length) c
    else c.enterWriting owner rest
  | .onMessage msg :: rest, queuedAt, c =>
    runEffects app owner rest queuedAt (c.callback app (.onMessage msg))
  | .onClose code reason :: rest, queuedAt, c =>
    runEffects app owner rest queuedAt (c.callback app (.onClose code reason))
  | .close code reason :: rest, queuedAt, c =>
    runEffects app owner rest queuedAt (c.close app queuedAt code reason)

/-- The frame that `send_text` and `send_binary` write. -/
def dataFrame (opcode : UInt8) (payload : Bytes) : WsFrame :=
  { fin := true, opcode, mask := false, payloadData := payload,
    payloadLength := UInt64.ofNat payload.length }

/-- The body of a task, from its start. -/
def taskEffects (c : Conn) : Task → List Effect
  | .closeAsync code reason => sendCloseWithReason code reason ++ [.close code reason]
  -- the state is tested again when the task starts
  | .sendText payload =>
    if c.state = .wsOpen then [.doWrite (writeFrame (dataFrame wsText payload))] else []
  | .sendBinary payload =>
    if c.state = .wsOpen then [.doWrite (writeFrame (dataFrame wsBinary payload))] else []

/-- The write of the `k`-th coroutine in the writing loop completes. -/
def writeDone (app : App) (k : ℕ) (c : Conn) : Option Conn := do
  let w ← c.writers[k]?
  -- `write_queue_.pop_front();`
  let c := { c with
    written := c.written ++ [w.buf]
    writeQueue := c.writeQueue.tail
    writers := c.writers.eraseIdx k }
  match c.writeQueue with
  | [] => pure (runEffects app w.owner w.rest (some w.queuedAt) { c with isWriting := false })
  | buf :: _ => pure { c with writers := c.writers ++ [{ w with buf }] }

/-- The write of the `k`-th coroutine in the writing loop fails: the exception ends the
coroutine. -/
def writeFail (k : ℕ) (c : Conn) : Option Conn := do
  let w ← c.writers[k]?
  -- `is_writing_` stays set
  pure { c with
    writers := c.writers.eraseIdx k
    readLoop := if w.owner = .readLoop then .threw else c.readLoop }

/-! ### Steps -/

/-- What can happen next. -/
inductive Event
  /-- `process_session_ws` calls `start`. -/
  | start
  /-- A public function is called from outside the callbacks. -/
  | call (k : Call)
  /-- The reads of one frame complete. -/
  | recv (f : WsFrame)
  /-- An exception while a frame is read: a read fails, at the end of the stream for example, or
  `payload_data.resize` throws for an announced length that no vector can have. -/
  | readError
  /-- The read loop goes on with the frame it has read. -/
  | resume
  /-- The strand starts its next task. -/
  | runTask
  | writeDone (k : ℕ)
  | writeFail (k : ℕ)
  deriving DecidableEq, Repr

def step (app : App) (c : Conn) : Event → Option Conn
  | .start => if c.readLoop = .notStarted then some (c.start app) else none
  | .call k => some (c.call app k)
  | .recv f =>
    -- a read on a socket that `close` has shut down fails
    if c.readLoop = .reading ∧ c.state = .wsOpen then some { c with readLoop := .got f } else none
  | .readError => if c.readLoop = .reading then some { c with readLoop := .threw } else none
  | .resume =>
    match c.readLoop with
    | .got f =>
      let (fb, effects) := handleParsedFrame app.handlers f c.fb
      some (runEffects app .readLoop effects none { c with fb })
    | _ => none
  | .runTask =>
    match c.tasks with
    | t :: tasks => some (runEffects app .task (c.taskEffects t) none { c with tasks })
    | [] => none
  | .writeDone k => c.writeDone app k
  | .writeFail k => c.writeFail k

end Conn

end WebSocketsLib
