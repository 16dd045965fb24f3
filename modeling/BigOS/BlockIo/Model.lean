/-
  BigOS.BlockIo.Model — block requests from arming to their terminal state.

  A request is armed by `submit_sync` or `arm_pending`, which puts it into a slot
  of its device's queue; it ends by a completion from the device, a timeout of
  its waiter, or a cancellation.  Threads and interrupts interleave between the
  locked sections, so each event below is the stretch of one thread (or of one
  interrupt) from one such point to the next.

  Requests and devices are named by numbers.  The diagnostics counters, which
  nothing here reads, are left out.

  Main definitions:
    • `Request`, `DeviceQueue`, `State` — the data,
    • `enqueueRequest`, `releaseRequestSlot`, `completeFromIrq`, `cancelPending`,
      `waitPending`, `afterWait`, `afterIssue` — the stretches,
    • `step`, `run` — runs.
-/
import Mathlib.Algebra.Group.Nat.Defs
import BigOS.Lib.Slots

namespace BigOS.BlockIo

open Function

/-! ## §1. Requests and queues. -/

def QUEUE_CAPACITY_PER_DEVICE : Nat := 8

def MAX_DEVICE_QUEUES : Nat := 8

/-- `UINT32_MAX`, the slot of a request that has none. -/
def UINT32_MAX : Nat := 2 ^ 32 - 1

inductive Operation where
  | read
  | write
  deriving Repr, DecidableEq

inductive Status where
  | success
  | invalidRequest
  | queueFull
  | deviceNotReady
  | wouldBlock
  | pendingTimeout
  | cancelled
  | completionRejected
  | bufferTooSmall
  | overflow
  | unsupported
  | deviceTimeout
  | deviceError
  | shortRead
  deriving Repr, DecidableEq

inductive RequestState where
  | invalid
  | queued
  | pending
  | completedSuccess
  | completedError
  | timeoutOrCancelled
  deriving Repr, DecidableEq

inductive TerminalReason where
  | none
  | success
  | invalidRequest
  | queueFull
  | issueFailure
  | deviceError
  | timeout
  | cancelled
  | completionRejected
  deriving Repr, DecidableEq

/-- `CompletionRejectionReason`, as far as it is written to a request. -/
inductive RejectionReason where
  | none
  | invalidSlot
  | requestMismatch
  | deviceMismatch
  | generationMismatch
  | requestGenerationMismatch
  | duplicateCompletion
  | lateCompletion
  | slotReuseProtected
  deriving Repr, DecidableEq

/-- `CompletionToken`. -/
structure Token where
  request : Nat
  device : Nat
  queueSlot : Nat
  generation : Nat
  deriving Repr, DecidableEq

structure Request where
  device : Nat
  status : Status
  state : RequestState
  terminalReason : TerminalReason
  rejectionReason : RejectionReason
  queueSlot : Nat
  completionGeneration : Nat
  queued : Bool
  wakeIssued : Bool
  deriving Repr, DecidableEq

/-- `completion_done_predicate`: the request has reached a terminal state. -/
def RequestState.terminal : RequestState → Bool
  | .completedSuccess => true
  | .completedError => true
  | .timeoutOrCancelled => true
  | _ => false

/-- `DeviceQueue` without its device and lock. -/
structure DeviceQueue where
  slots : Nat → Option Nat
  generations : Nat → Nat
  activeCount : Nat

def DeviceQueue.empty : DeviceQueue := ⟨fun _ => none, fun _ => 0, 0⟩

/-- How a wait ends. -/
inductive WaitResult where
  | ok
  | timeout
  deriving Repr, DecidableEq

/-- What a `submit_sync` or `wait_pending` returned, with the state of its request
and the queues at that moment. -/
structure Return where
  request : Nat
  status : Status
  state : RequestState
  queues : Nat → Option DeviceQueue

/-- The requests, the queues in use, and the threads inside the code: those that
issue a request, those about to wait and those that wait (with whether the wait
has a deadline), those that were made runnable, and the wakeups on their way.
`arming` counts the armings of a request, `wakes` its wakeups since the last one,
and `issued` the tokens with the arming they belong to. -/
structure State where
  requests : Nat → Request
  queues : Nat → Option DeviceQueue
  nrQueues : Nat
  issuing : List (Nat × Token)
  entering : List (Nat × Bool)
  waiting : List (Nat × Bool)
  woken : List (Nat × WaitResult)
  toWake : List Nat
  returns : List Return
  arming : Nat → Nat
  wakes : Nat → Nat
  issued : List (Token × Nat)

variable (s : State) (rid : Nat)

namespace State

def setRequest (r : Request) : State :=
  { s with requests := update s.requests rid r }

def setQueue (device : Nat) (q : DeviceQueue) : State :=
  { s with queues := update s.queues device (some q) }

/-- A call returns the status. -/
def finish (status : Status) : State :=
  { s with returns := s.returns ++ [⟨rid, status, (s.requests rid).state, s.queues⟩] }

end State

/-! ## §2. Validation. -/

/-- What of a `BlockDevice` the request layer looks at. -/
structure BlockDevice where
  sectorSize : Nat
  totalSectors : Nat
  hasRead : Bool
  hasWrite : Bool
  deriving Repr, DecidableEq

/-- The fields a caller sets before it arms a request. -/
structure Arguments where
  device : Option (Nat × BlockDevice)
  operation : Operation
  lba : Nat
  sectorCount : Nat
  bufferNull : Bool
  bufferLen : Nat
  deriving Repr, DecidableEq

/-- `validate_request`. -/
def validateRequest (a : Arguments) : Status :=
  match a.device with
  | none => .invalidRequest
  | some (_, d) =>
    if d.sectorSize = 0 then .invalidRequest
    else if a.bufferNull then .invalidRequest
    else if a.sectorCount = 0 then .invalidRequest
    else if a.operation = .read ∧ d.hasRead = false then .deviceNotReady
    else if a.operation = .write ∧ d.hasWrite = false then .unsupported
    else if 2 ^ 64 - 1 - a.sectorCount < a.lba then .overflow
    else if d.totalSectors ≠ 0 ∧ d.totalSectors < a.lba + a.sectorCount then .overflow
    else if 2 ^ 64 - 1 < a.sectorCount * d.sectorSize then .overflow
    else if a.bufferLen < a.sectorCount * d.sectorSize then .bufferTooSmall
    else .success

/-- `terminal_reason_for_status`. -/
def terminalReasonForStatus : Status → TerminalReason
  | .success => .success
  | .invalidRequest => .invalidRequest
  | .queueFull => .queueFull
  | .pendingTimeout => .timeout
  | .deviceTimeout => .timeout
  | .cancelled => .cancelled
  | .completionRejected => .completionRejected
  | _ => .deviceError

/-- `completion_status_allowed`. -/
def completionStatusAllowed : Status → Bool
  | .success => true
  | .invalidRequest => true
  | .deviceNotReady => true
  | .bufferTooSmall => true
  | .overflow => true
  | .unsupported => true
  | .deviceTimeout => true
  | .deviceError => true
  | .shortRead => true
  | _ => false

/-- `prepare_request_state`. -/
def Request.prepare (r : Request) (status : Status) : Request where
  device := r.device
  status := status
  state := if status = .success then .queued else .invalid
  terminalReason := terminalReasonForStatus status
  rejectionReason := .none
  queueSlot := UINT32_MAX
  completionGeneration := 0
  queued := false
  wakeIssued := false

/-- `set_terminal_state`. -/
def Request.setTerminal (r : Request) (status : Status) (reason : TerminalReason) : Request :=
  { r with
    status := status
    terminalReason := reason
    state := if status = .pendingTimeout ∨ status = .cancelled then .timeoutOrCancelled
      else if status = .success then .completedSuccess else .completedError }

/-! ## §3. The queue. -/

/-- `queue_for`: the queue of a device, from now on, or none if all are taken. -/
def queueFor (device : Nat) : Option State :=
  match s.queues device with
  | some _ => some s
  | none =>
    if s.nrQueues < MAX_DEVICE_QUEUES then
      some { s.setQueue device DeviceQueue.empty with nrQueues := s.nrQueues + 1 }
    else none

/-- The next generation of a slot; zero is skipped. -/
def nextGeneration (g : Nat) : Nat :=
  if (g + 1) % 2 ^ 32 = 0 then 1 else (g + 1) % 2 ^ 32

/-- A slot of the queue is taken. -/
def DeviceQueue.take (q : DeviceQueue) (slot rid : Nat) : DeviceQueue where
  slots := update q.slots slot (some rid)
  generations := update q.generations slot (nextGeneration (q.generations slot))
  activeCount := q.activeCount + 1

/-- A slot of the queue is given up. -/
def DeviceQueue.vacate (q : DeviceQueue) (slot : Nat) : DeviceQueue where
  slots := update q.slots slot none
  generations := q.generations
  activeCount := q.activeCount - 1

/-- The first free slot. -/
def DeviceQueue.freeSlot (q : DeviceQueue) : Option Nat :=
  (List.range QUEUE_CAPACITY_PER_DEVICE).find? (fun i => (q.slots i).isNone)

/-- `enqueue_request`, into the queue of the request's device. -/
def enqueueRequest : Except Status (Token × State) :=
  let r := s.requests rid
  match s.queues r.device with
  | none => .error .invalidRequest
  | some q =>
    if QUEUE_CAPACITY_PER_DEVICE ≤ q.activeCount then .error .queueFull
    else
      match q.freeSlot with
      | none => .error .queueFull
      | some slot =>
        let generation := nextGeneration (q.generations slot)
        let token : Token := ⟨rid, r.device, slot, generation⟩
        let r' : Request :=
          { r with
            queueSlot := slot
            completionGeneration := generation
            queued := true
            state := .pending
            terminalReason := .none
            rejectionReason := .none }
        let s := (s.setQueue r.device (q.take slot rid)).setRequest rid r'
        .ok (token, { s with issued := s.issued ++ [(token, s.arming rid)] })

/-- `release_request_slot` and `release_request_slot_locked`. -/
def releaseRequestSlot : State :=
  let r := s.requests rid
  match s.queues r.device with
  | none => s
  | some q =>
    if !r.queued then s
    else
      let s :=
        if r.queueSlot < QUEUE_CAPACITY_PER_DEVICE ∧ q.slots r.queueSlot = some rid then
          s.setQueue r.device (q.vacate r.queueSlot)
        else s
      s.setRequest rid { r with queued := false, queueSlot := UINT32_MAX }

/-! ## §4. Arming. -/

/-- The device of a request that a caller has filled in. -/
def Arguments.deviceOf (a : Arguments) (r : Request) : Nat :=
  match a.device with
  | none => r.device
  | some (d, _) => d

/-- The request is validated and prepared. -/
def prepare (a : Arguments) : State :=
  let r : Request := { s.requests rid with device := a.deviceOf (s.requests rid) }
  { s.setRequest rid (r.prepare (validateRequest a)) with
    arming := update s.arming rid (s.arming rid + 1)
    wakes := update s.wakes rid 0 }

/-- A request that gets no slot. -/
def refuse (status : Status) (reason : TerminalReason) : State :=
  s.setRequest rid { s.requests rid with
    status := status, state := .invalid, terminalReason := reason }

/-- The common part of `submit_sync` and `arm_pending`: the request gets a slot. -/
def arm (a : Arguments) (canBlock : Bool) : Except Status Token × State :=
  let s := prepare s rid a
  if validateRequest a ≠ .success then (.error (validateRequest a), s)
  else if !canBlock then (.error .wouldBlock, refuse s rid .wouldBlock .deviceError)
  else
    match queueFor s (s.requests rid).device with
    | none => (.error .invalidRequest, refuse s rid .invalidRequest .invalidRequest)
    | some s =>
      match enqueueRequest s rid with
      | .error status =>
        (.error status, refuse s rid status (terminalReasonForStatus status))
      | .ok (token, s) =>
        (.ok token, s.setRequest rid { s.requests rid with status := .wouldBlock })

/-- `arm_pending`. -/
def armPending (a : Arguments) (canBlock : Bool) : State :=
  (arm s rid a canBlock).2

/-- `submit_sync` up to the call of the device. -/
def submitSync (a : Arguments) (canBlock : Bool) : State :=
  match arm s rid a canBlock with
  | (.error status, s) => s.finish rid status
  | (.ok token, s) => { s with issuing := s.issuing ++ [(rid, token)] }

/-! ## §5. Completion and cancellation. -/

/-- Why a token does not complete its request, as `complete_from_irq` finds it. -/
def rejection (q : DeviceQueue) (t : Token) : RejectionReason :=
  let r := s.requests t.request
  if QUEUE_CAPACITY_PER_DEVICE ≤ t.queueSlot then .invalidSlot
  else
    match q.slots t.queueSlot with
    | none => if q.generations t.queueSlot = t.generation then .lateCompletion
        else .slotReuseProtected
    | some rid =>
      if rid ≠ t.request then
        if q.generations t.queueSlot = t.generation then .requestMismatch
        else .slotReuseProtected
      else if r.device ≠ t.device then .deviceMismatch
      else if q.generations t.queueSlot ≠ t.generation then .generationMismatch
      else if r.completionGeneration ≠ t.generation then .requestGenerationMismatch
      else if r.state ≠ .pending then
        if r.state = .timeoutOrCancelled then .lateCompletion else .duplicateCompletion
      else .none

/-- A wakeup is sent to the waiters of the request, unless one was. -/
def wakeOnce : State :=
  if (s.requests rid).wakeIssued then s
  else
    let s := s.setRequest rid { s.requests rid with wakeIssued := true }
    { s with
      toWake := s.toWake ++ [rid]
      wakes := update s.wakes rid (s.wakes rid + 1) }

/-- `complete_from_irq`, with the status it returns. -/
def completeFromIrq (token : Option Token) (final : Status) : Status × State :=
  match token with
  | none => (.completionRejected, s)
  | some t =>
    if !completionStatusAllowed final then (.completionRejected, s)
    else
      match s.queues t.device with
      | none => (.completionRejected, s)
      | some q =>
        let reason := rejection s q t
        let r := s.requests t.request
        if reason ≠ .none then
          (.completionRejected, s.setRequest t.request { r with rejectionReason := reason })
        else
          let s := s.setRequest t.request (r.setTerminal final (terminalReasonForStatus final))
          (.success, wakeOnce s t.request)

/-- The request ends and gives up its slot, in one locked section. -/
def terminate (status : Status) (reason : TerminalReason) : State :=
  releaseRequestSlot (s.setRequest rid ((s.requests rid).setTerminal status reason)) rid

/-- `cancel_pending`.  A request whose device has no queue was never armed. -/
def cancelPending : State :=
  match queueFor s (s.requests rid).device with
  | none => s
  | some s =>
    if (s.requests rid).state ≠ .pending then s
    else wakeOnce (terminate s rid .cancelled .cancelled) rid

/-! ## §6. Waiting. -/

/-- The code asks for the queue of the request's device. -/
def touchQueue : State :=
  match queueFor s (s.requests rid).device with
  | none => s
  | some s => s

/-- The slot is released and the status returned. -/
def releaseAndReturn : State :=
  let s := releaseRequestSlot (touchQueue s rid) rid
  s.finish rid (s.requests rid).status

/-- `wait_pending` up to the wait. -/
def waitPending (deadline canBlock : Bool) : State :=
  if (s.requests rid).state.terminal then releaseAndReturn s rid
  else if (s.requests rid).state ≠ .pending then s.finish rid .invalidRequest
  else if !canBlock then s.finish rid .wouldBlock
  else { s with entering := s.entering ++ [(rid, deadline)] }

/-- The request ends if it is still pending, and its status is returned: only
then is the slot released. -/
def terminateIfPending (status : Status) (reason : TerminalReason) : State :=
  let s := if (s.requests rid).state = .pending then terminate s rid status reason else s
  s.finish rid (s.requests rid).status

/-- `wait_pending` after the wait. -/
def afterWait : WaitResult → State
  | .timeout => terminateIfPending (touchQueue s rid) rid .pendingTimeout .timeout
  | .ok =>
    if (s.requests rid).state = .pending then (touchQueue s rid).finish rid .wouldBlock
    else releaseAndReturn s rid

/-- `submit_sync` after the call of the device. -/
def afterIssue (issueStatus : Status) (canBlock : Bool) : State :=
  if issueStatus ≠ .success then terminateIfPending s rid issueStatus .issueFailure
  else waitPending s rid true canBlock

/-! ## §7. Runs. -/

/-- A stretch of a thread or an interrupt. -/
inductive Event where
  | submit (rid : Nat) (a : Arguments) (canBlock : Bool)
  /-- The device's `issue_impl` returns to the thread at place `i`. -/
  | issued (i : Nat) (status : Status) (canBlock : Bool)
  /-- A device without `issue_impl`: the transfer is done and completed here. -/
  | dispatched (i : Nat) (final : Status) (canBlock : Bool)
  | arm (rid : Nat) (a : Arguments) (canBlock : Bool)
  | wait (rid : Nat) (deadline canBlock : Bool)
  /-- The thread tests the predicate under the lock of the wait queue. -/
  | block (i : Nat)
  | timeout (i : Nat)
  | wake (i : Nat)
  | resume (i : Nat)
  | cancel (rid : Nat)
  | complete (token : Option Token) (final : Status)
  deriving Repr, DecidableEq

/-- One event; threads are named by their place in the list they are in. -/
def step : Event → State
  | .submit rid a canBlock => submitSync s rid a canBlock
  | .issued i status canBlock =>
    match s.issuing[i]? with
    | none => s
    | some (rid, _) =>
      afterIssue { s with issuing := s.issuing.eraseIdx i } rid status canBlock
  | .dispatched i final canBlock =>
    match s.issuing[i]? with
    | none => s
    | some (rid, token) =>
      let done := completeFromIrq { s with issuing := s.issuing.eraseIdx i } (some token) final
      afterIssue done.2 rid done.1 canBlock
  | .arm rid a canBlock => armPending s rid a canBlock
  | .wait rid deadline canBlock => waitPending s rid deadline canBlock
  | .block i =>
    match s.entering[i]? with
    | none => s
    | some (rid, deadline) =>
      let s := { s with entering := s.entering.eraseIdx i }
      if (s.requests rid).state.terminal then afterWait s rid .ok
      else { s with waiting := s.waiting ++ [(rid, deadline)] }
  | .timeout i =>
    match s.waiting[i]? with
    | some (rid, true) =>
      { s with waiting := s.waiting.eraseIdx i, woken := s.woken ++ [(rid, .timeout)] }
    | _ => s
  | .wake i =>
    match s.toWake[i]? with
    | none => s
    | some rid =>
      { s with
        toWake := s.toWake.eraseIdx i
        waiting := s.waiting.filter (fun w => w.1 ≠ rid)
        woken := s.woken ++ (s.waiting.filter (fun w => w.1 = rid)).map (fun w => (w.1, .ok)) }
  | .resume i =>
    match s.woken[i]? with
    | none => s
    | some (rid, result) => afterWait { s with woken := s.woken.eraseIdx i } rid result
  | .cancel rid => cancelPending s rid
  | .complete token final => (completeFromIrq s token final).2

def run (events : List Event) : State := events.foldl step s

/-- Every event of the run has the property in the state it is taken in. -/
def Always (P : State → Event → Prop) : State → List Event → Prop
  | _, [] => True
  | s, e :: events => P s e ∧ Always P (step s e) events

/-- No queue in use and nothing armed. -/
def State.boot : State where
  requests _ := ⟨0, .success, .invalid, .none, .none, UINT32_MAX, 0, false, false⟩
  queues _ := none
  nrQueues := 0
  issuing := []
  entering := []
  waiting := []
  woken := []
  toWake := []
  returns := []
  arming _ := 0
  wakes _ := 0
  issued := []

end BigOS.BlockIo
