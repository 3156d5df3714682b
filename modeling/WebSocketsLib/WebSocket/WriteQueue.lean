import WebSocketsLib.Bytes

/-!
# The write queue

`WebSocket::do_write` by itself: any coroutines call it, and the writes of the socket complete or
fail at any time.  The code between two suspension points is one step.  A coroutine that is
suspended in `do_write` is in the writing loop, with the buffer that it has handed to the socket.

`ι` is what distinguishes the coroutines.
-/

namespace WebSocketsLib

structure WriteQueue (ι : Type) where
  writeQueue : List Bytes := []
  isWriting : Bool := false
  /-- The coroutines inside the writing loop, each in `async_write_any` with its buffer. -/
  writers : List (ι × Bytes) := []
  /-- The arguments of the `do_write` calls so far. -/
  queued : List Bytes := []
  /-- The buffers that have been handed to the socket. -/
  handed : List Bytes := []
  /-- The buffers that have been written completely. -/
  written : List Bytes := []
  deriving DecidableEq, Repr

namespace WriteQueue

variable {ι : Type}

/-- The writing loop from its test on: the coroutine `who` hands the front of the queue to the
socket, or leaves the loop. -/
def loop (who : ι) (q : WriteQueue ι) : WriteQueue ι :=
  match q.writeQueue with
  | [] => { q with isWriting := false }
  | buf :: _ => { q with writers := q.writers ++ [(who, buf)], handed := q.handed ++ [buf] }

/-- `do_write`, up to its first suspension or its end. -/
def doWrite (who : ι) (bytes : Bytes) (q : WriteQueue ι) : WriteQueue ι :=
  let q := { q with writeQueue := q.writeQueue ++ [bytes], queued := q.queued ++ [bytes] }
  -- `if (is_writing_) co_return;`
  if q.isWriting then q
  else loop who { q with isWriting := true }

/-- The write of the `k`-th coroutine in the loop completes. -/
def writeDone (k : ℕ) (q : WriteQueue ι) : Option (WriteQueue ι) := do
  let (who, buf) ← q.writers[k]?
  -- `write_queue_.pop_front();`
  pure (loop who { q with
    written := q.written ++ [buf]
    writeQueue := q.writeQueue.tail
    writers := q.writers.eraseIdx k })

/-- The write of the `k`-th coroutine in the loop fails: the exception ends the coroutine, and
`is_writing_` stays set. -/
def writeFail (k : ℕ) (q : WriteQueue ι) : Option (WriteQueue ι) := do
  let _ ← q.writers[k]?
  pure { q with writers := q.writers.eraseIdx k }

/-- What can happen next. -/
inductive Event (ι : Type)
  | doWrite (who : ι) (bytes : Bytes)
  | writeDone (k : ℕ)
  | writeFail (k : ℕ)
  deriving DecidableEq, Repr

def step (q : WriteQueue ι) : Event ι → Option (WriteQueue ι)
  | .doWrite who bytes => some (q.doWrite who bytes)
  | .writeDone k => q.writeDone k
  | .writeFail k => q.writeFail k

end WriteQueue

end WebSocketsLib
