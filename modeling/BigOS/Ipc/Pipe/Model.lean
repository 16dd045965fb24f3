/-
  BigOS.Ipc.Pipe.Model — the pipe, as the kernel computes it.

  A pipe is shared by any number of threads that call `pipe_read`, `pipe_write`
  and `pipe_close`.  A run is a sequence of events, each of them a stretch of one
  thread: a call is made, a woken call goes on, a wait is interrupted, or an end
  is closed.  A thread is preempted where it blocks, and also on the return from
  an interrupt in the kernel: a reader then stops past one of its two tests.
  A call preempted between two bytes is, for the other threads, two shorter ones.

  The File of an end holds a reference for every call in progress on it, so the
  pipe is not freed under a call; `maybe_free` is left out.

  Main definitions:
    • `Pipe`, `State` — the pipe, its wait queues, and what the calls returned,
    • `pipeRead`, `pipeWrite`, `resumeRead`, `enterRead` — the stretches,
    • `step`, `run` — runs.
-/
import BigOS.Lib.Ring

namespace BigOS.Ipc

open BigOS.Lib

/-! ## §1. The pipe and its callers. -/

/-- `PIPE_CAPACITY`. -/
def PIPE_CAPACITY : Nat := 256

/-- `vfs::Status`, as far as the pipe returns it. -/
inductive Status where
  | success
  | wouldBlock
  | brokenPipe
  | badFileDescriptor
  | invalidArgument
  deriving Repr, DecidableEq

structure Pipe where
  ring : Ring UInt8 PIPE_CAPACITY
  readOpen : Bool
  writeOpen : Bool

/-- `read_ready`. -/
def Pipe.readReady (p : Pipe) : Bool := decide (0 < p.ring.count) || !p.writeOpen

/-- A reader that waits: it asked for `len` bytes. -/
structure Reader where
  tid : Nat
  len : Nat
  deriving Repr, DecidableEq

/-- Where a runnable reader goes on: its wait was interrupted; it is past the
first test, or its wait ended in `WAIT_OK`; or it is also past the test for the
end of the file. -/
inductive Point where
  | interrupted
  | tested
  | copies
  deriving Repr, DecidableEq

/-- A writer that waits: `done` of the bytes of `src` are written and `rest` are
not; `stored` are the bytes this call has put into the buffer. -/
structure Writer where
  tid : Nat
  src : List UInt8
  done : Nat
  rest : List UInt8
  stored : List UInt8
  deriving Repr, DecidableEq

/-- What a call returned: its status and what it reports, with the pipe at the
moment a read returns and the bytes a write has stored. -/
inductive Return where
  | read (tid len : Nat) (status : Status) (bytes : List UInt8) (pipe : Pipe)
  | write (tid : Nat) (src : List UInt8) (status : Status) (bytesWritten : Nat)
      (stored : List UInt8)

/-- The bytes a read returned. -/
def Return.bytes : Return → List UInt8
  | .read _ _ _ bytes _ => bytes
  | .write .. => []

/-- The pipe, the threads in `read_wq` and `write_wq`, those that a wakeup, an
interruption or a preemption has made runnable (a writer with whether its wait
ends in `WAIT_OK`), the bytes stored so far and the calls that have returned. -/
structure State where
  pipe : Pipe
  readWq : List Reader
  writeWq : List Writer
  wokenReaders : List (Reader × Point)
  wokenWriters : List (Writer × Bool)
  stored : List UInt8
  returns : List Return

variable (s : State)

namespace State

def setRing (ring : Ring UInt8 PIPE_CAPACITY) : State :=
  { s with pipe := { s.pipe with ring := ring } }

def finish (r : Return) : State := { s with returns := s.returns ++ [r] }

/-- `wake_all(&pipe->read_wq)`. -/
def wakeReaders : State :=
  { s with wokenReaders := s.wokenReaders ++ s.readWq.map (·, .tested), readWq := [] }

/-- `wake_all(&pipe->write_wq)`. -/
def wakeWriters : State :=
  { s with wokenWriters := s.wokenWriters ++ s.writeWq.map (·, true), writeWq := [] }

/-- One byte is put into the buffer. -/
def store (b : UInt8) : State :=
  { s.setRing (s.pipe.ring.push b) with stored := s.stored ++ [b] }

/-- The bytes all reads have returned, in the order of the returns. -/
def delivered : List UInt8 := s.returns.flatMap Return.bytes

end State

/-! ## §2. The calls. -/

/-- The loop of `pipe_read` and what follows it. -/
def copyRead (tid len : Nat) : State :=
  let taken := Ring.takeUpTo len s.pipe.ring
  let s' := (s.setRing taken.2).wakeWriters
  s'.finish (.read tid len .success taken.1 s'.pipe)

/-- The part of `pipe_read` after the wait.  The predicate is not tested again:
an empty buffer is taken for the end of the file. -/
def finishRead (tid len : Nat) : State :=
  if s.pipe.ring.count = 0 then s.finish (.read tid len .success [] s.pipe)
  else copyRead s tid len

/-- `pipe_read`; `canWait` says that the file is blocking and that the context
can block.  A closed end has no `private_data`. -/
def pipeRead (tid len : Nat) (dstNull canWait : Bool) : State :=
  if !s.pipe.readOpen then s.finish (.read tid len .badFileDescriptor [] s.pipe)
  else if len = 0 then s.finish (.read tid len .success [] s.pipe)
  else if dstNull then s.finish (.read tid len .invalidArgument [] s.pipe)
  else if s.pipe.ring.count = 0 && s.pipe.writeOpen then
    if !canWait then s.finish (.read tid len .wouldBlock [] s.pipe)
    else if s.pipe.readReady then finishRead s tid len
    else { s with readWq := s.readWq ++ [⟨tid, len⟩] }
  else finishRead s tid len

/-- The loop of `pipe_write`.  `*__bytes_written` is zero until the loop has
written everything. -/
def writeLoop (tid : Nat) (src : List UInt8) (canWait : Bool) :
    List UInt8 → Nat → List UInt8 → State → State
  | [], done, stored, s => s.finish (.write tid src .success done stored)
  | b :: rest, done, stored, s =>
    if !s.pipe.readOpen then
      s.finish (.write tid src (if 0 < done then .success else .brokenPipe) 0 stored)
    else if s.pipe.ring.count = PIPE_CAPACITY then
      if !canWait then
        s.finish (.write tid src (if 0 < done then .success else .wouldBlock) 0 stored)
      -- `write_ready` has just been found false, so the wait blocks.
      else { s with writeWq := s.writeWq ++ [⟨tid, src, done, b :: rest, stored⟩] }
    else writeLoop tid src canWait rest (done + 1) (stored ++ [b]) (s.store b).wakeReaders

/-- `pipe_write`. -/
def pipeWrite (tid : Nat) (src : List UInt8) (srcNull canWait : Bool) : State :=
  if !s.pipe.writeOpen then s.finish (.write tid src .badFileDescriptor 0 [])
  else if src = [] then s.finish (.write tid src .success 0 [])
  else if srcNull then s.finish (.write tid src .invalidArgument 0 [])
  else writeLoop tid src canWait src 0 [] s

/-- A call of `pipe_read` that finds the pipe ready and is preempted there. -/
def enterRead (tid len : Nat) (dstNull : Bool) : State :=
  if s.pipe.readOpen && len != 0 && !dstNull && s.pipe.readReady then
    { s with wokenReaders := s.wokenReaders ++ [(⟨tid, len⟩, .tested)] }
  else s

/-- A runnable reader goes on. -/
def resumeRead (r : Reader) : Point → State
  | .interrupted => s.finish (.read r.tid r.len .wouldBlock [] s.pipe)
  | .tested => finishRead s r.tid r.len
  | .copies => copyRead s r.tid r.len

/-- A woken writer goes on after its wait. -/
def resumeWrite (w : Writer) (ok canWait : Bool) : State :=
  if ok then writeLoop w.tid w.src canWait w.rest w.done w.stored s
  else s.finish (.write w.tid w.src (if 0 < w.done then .success else .wouldBlock) 0 w.stored)

/-- `pipe_close` of the read end. -/
def closeRead : State :=
  if s.pipe.readOpen then { s with pipe := { s.pipe with readOpen := false } }.wakeWriters else s

/-- `pipe_close` of the write end. -/
def closeWrite : State :=
  if s.pipe.writeOpen then { s with pipe := { s.pipe with writeOpen := false } }.wakeReaders
  else s

/-! ## §3. Runs. -/

/-- A stretch of one thread, from a call or a wakeup to the return, the next wait
or a preemption; waits may be interrupted, and the ends are closed at any time. -/
inductive Event where
  | read (tid len : Nat) (dstNull canWait : Bool)
  | write (tid : Nat) (src : List UInt8) (srcNull canWait : Bool)
  | enterReader (tid len : Nat) (dstNull : Bool)
  | testReader (i : Nat)
  | resumeReader (i : Nat)
  | resumeWriter (i : Nat) (canWait : Bool)
  | interruptReader (i : Nat)
  | interruptWriter (i : Nat)
  | closeRead
  | closeWrite
  deriving Repr, DecidableEq

/-- One event; the threads that wait or are woken are named by their place in
the queue, so that any of them may be next. -/
def step : Event → State
  | .read tid len dstNull canWait => pipeRead s tid len dstNull canWait
  | .write tid src srcNull canWait => pipeWrite s tid src srcNull canWait
  | .enterReader tid len dstNull => enterRead s tid len dstNull
  | .testReader i =>
    match s.wokenReaders[i]? with
    | some (r, .tested) =>
      if s.pipe.ring.count = 0 then s
      else { s with wokenReaders := s.wokenReaders.set i (r, .copies) }
    | _ => s
  | .resumeReader i =>
    match s.wokenReaders[i]? with
    | none => s
    | some (r, point) => resumeRead { s with wokenReaders := s.wokenReaders.eraseIdx i } r point
  | .resumeWriter i canWait =>
    match s.wokenWriters[i]? with
    | none => s
    | some (w, ok) =>
      resumeWrite { s with wokenWriters := s.wokenWriters.eraseIdx i } w ok canWait
  | .interruptReader i =>
    match s.readWq[i]? with
    | none => s
    | some r =>
      { s with
        readWq := s.readWq.eraseIdx i
        wokenReaders := s.wokenReaders ++ [(r, .interrupted)] }
  | .interruptWriter i =>
    match s.writeWq[i]? with
    | none => s
    | some w =>
      { s with writeWq := s.writeWq.eraseIdx i, wokenWriters := s.wokenWriters ++ [(w, false)] }
  | .closeRead => closeRead s
  | .closeWrite => closeWrite s

def run (events : List Event) : State := events.foldl step s

/-- No event of the run is bad in the state it is taken in. -/
def Never (bad : State → Event → Prop) : State → List Event → Prop
  | _, [] => True
  | s, e :: events => ¬bad s e ∧ Never bad (step s e) events

/-- `create`: an empty pipe with both ends open. -/
def create : State where
  pipe := ⟨⟨fun _ => 0, 0, 0, 0⟩, true, true⟩
  readWq := []
  writeWq := []
  wokenReaders := []
  wokenWriters := []
  stored := []
  returns := []

end BigOS.Ipc
