/-
  BigOS.Irq.Dispatch — the nonblocking depth of a CPU, and delivery on the way out.

  `irq_dispatch` holds a guard that raises `nonblocking_depth` while a handler runs.  A
  fatal user page fault ends in `thread_exit` under the guard, which nobody lowers again.
  Signals are delivered at the end of the branch of the i8259 only.

  Main results:
    • `step_balanced`, `run_balanced` — the depth counts the guards of the running thread
      and the fatal faults,
    • `canBlock_iff_no_fault` — outside every guard the depth is 0 up to the first of them,
    • `irqReturn_delivers_iff` — which interrupts deliver a signal.
-/
import BigOS.Proc.Signal

namespace BigOS.Irq

open Function List

/-! ## §1. The stacks of the threads. -/

/-- What a thread is in the middle of. -/
inductive Frame where
  /-- `sys::dispatch`. -/
  | syscall
  /-- `page_fault_handler`, under the guard. -/
  | exception
  /-- The handler of an external interrupt, under the guard. -/
  | handler
  /-- A spurious vector or one that nobody owns, under the guard. -/
  | stray
  /-- After the guard of a handler: preemption and delivery. -/
  | tail
  deriving Repr, DecidableEq

def Frame.guarded : Frame → Bool
  | .exception | .handler | .stray => true
  | .syscall | .tail => false

/-- A CPU: `nonblocking_depth`, the thread that runs and the stacks.  A thread with an
empty stack runs its own code. -/
structure Cpu where
  nonblockingDepth : Nat
  current : Nat
  stack : Nat → List Frame

namespace Cpu

def frames (c : Cpu) : List Frame := c.stack c.current

def setFrames (c : Cpu) (frames : List Frame) : Cpu :=
  { c with stack := update c.stack c.current frames }

/-- `enter_nonblocking_context`. -/
def enterNonblockingContext (c : Cpu) : Cpu :=
  { c with nonblockingDepth := c.nonblockingDepth + 1 }

/-- `leave_nonblocking_context`. -/
def leaveNonblockingContext (c : Cpu) : Cpu :=
  { c with nonblockingDepth := c.nonblockingDepth - 1 }

/-- `thread_exit`: the stack is left for good. -/
def threadExit (c : Cpu) (next : Nat) : Cpu := { c.setFrames [] with current := next }

/-- No guard is held where the CPU executes. -/
def outside (c : Cpu) : Bool := !c.frames.head?.any Frame.guarded

end Cpu

/-- What happens on a CPU; `next` is the thread that the scheduler takes. -/
inductive Event where
  | syscall
  /-- A page fault in user mode. -/
  | pageFault
  /-- An external interrupt, or a vector that has no handler. -/
  | interrupt (stray : Bool)
  /-- The handler under the guard returns. -/
  | handled
  | iret
  /-- `fault_current_and_exit` in `page_fault_handler`. -/
  | fatalFault (next : Nat)
  /-- A thread exits, or a signal kills its process. -/
  | exit (next : Nat)
  /-- `maybe_preempt_on_irq_return`, or a thread that yields or waits. -/
  | switch (next : Nat)
  deriving Repr, DecidableEq

/-- One event; one that cannot happen now changes nothing.  The gates of exceptions and
interrupts mask interrupts, the gate of system calls does not. -/
def step (c : Cpu) : Event → Cpu
  | .syscall => match c.frames with
    | [] => c.setFrames [.syscall]
    | _ => c
  | .pageFault => match c.frames with
    | [] => (c.setFrames [.exception]).enterNonblockingContext
    | _ => c
  | .interrupt stray =>
    let entered := if stray then Frame.stray else .handler
    match c.frames with
    | [] => (c.setFrames [entered]).enterNonblockingContext
    | .syscall :: rest => (c.setFrames (entered :: .syscall :: rest)).enterNonblockingContext
    | _ => c
  | .handled => match c.frames with
    | .exception :: rest | .stray :: rest => (c.setFrames rest).leaveNonblockingContext
    | .handler :: rest => (c.setFrames (.tail :: rest)).leaveNonblockingContext
    | _ => c
  | .iret => match c.frames with
    | .syscall :: rest | .tail :: rest => c.setFrames rest
    | _ => c
  | .fatalFault next => match c.frames with
    | .exception :: _ => c.threadExit next
    | _ => c
  | .exit next => if c.outside then c.threadExit next else c
  | .switch next => match c.frames with
    -- An interrupted thread is left only below a depth of two.
    | .tail :: _ => if c.nonblockingDepth ≤ 1 then { c with current := next } else c
    | [] | .syscall :: _ => { c with current := next }
    | _ => c

def run (c : Cpu) (events : List Event) : Cpu := events.foldl step c

/-- The CPU before the first event. -/
def boot : Cpu := ⟨0, 0, fun _ => []⟩

/-- The event is a fatal fault that happens. -/
def faults (c : Cpu) : Event → Nat
  | .fatalFault _ => if c.frames.head? = some .exception then 1 else 0
  | _ => 0

/-- The fatal faults of a run. -/
def fatalFaults : Cpu → List Event → Nat
  | _, [] => 0
  | c, e :: events => faults c e + fatalFaults (step c e) events

/-! ## §2. What the depth counts. -/

/-- With `k` fatal faults so far: guards lie on top of the running stack only. -/
structure Balanced (k : Nat) (c : Cpu) : Prop where
  depth : c.nonblockingDepth = c.frames.countP Frame.guarded + k
  below : c.frames.tail.countP Frame.guarded = 0
  others : ∀ t, t ≠ c.current → (c.stack t).countP Frame.guarded = 0

section

variable {k : Nat} {c : Cpu} {f : Frame}

section

variable (h : Balanced k c) {rest : List Frame}

include h

namespace Balanced

/-- The running stack and the depth change, and nothing else. -/
theorem setFrames {frames : List Frame} {depth : Nat}
    (hdepth : depth = frames.countP Frame.guarded + k)
    (hbelow : frames.tail.countP Frame.guarded = 0) :
    Balanced k ⟨depth, c.current, update c.stack c.current frames⟩ := by
  have hself : update c.stack c.current frames c.current = frames := update_self ..
  refine ⟨?_, ?_, fun t ht => ?_⟩
  · show depth = (update c.stack c.current frames c.current).countP _ + k
    rw [hself, hdepth]
  · show (update c.stack c.current frames c.current).tail.countP _ = 0
    rw [hself, hbelow]
  · show (update c.stack c.current frames t).countP _ = 0
    rw [update_of_ne ht]
    exact h.others t ht

/-- The frame on top ends; nothing below it is counted. -/
theorem pop (hframes : c.frames = f :: rest) :
    Balanced k ⟨c.nonblockingDepth - (if f.guarded then 1 else 0), c.current,
      update c.stack c.current rest⟩ := by
  have hdepth := h.depth
  have hbelow := h.below
  rw [hframes, countP_cons] at hdepth
  rw [hframes, tail_cons] at hbelow
  refine h.setFrames (by omega) (Nat.eq_zero_of_le_zero ?_)
  exact rest.tail_sublist.countP_le.trans hbelow.le

/-- A frame is entered where no guard is held. -/
theorem push (hnone : c.frames.countP Frame.guarded = 0) (f : Frame) :
    Balanced k ⟨c.nonblockingDepth + (if f.guarded then 1 else 0), c.current,
      update c.stack c.current (f :: c.frames)⟩ := by
  have hdepth := h.depth
  refine h.setFrames ?_ hnone
  rw [countP_cons]
  omega

/-- Another thread runs; the one that is left holds no guard. -/
theorem switch (hnone : c.frames.countP Frame.guarded = 0) (next : Nat) :
    Balanced k { c with current := next } := by
  have hall : ∀ t, (c.stack t).countP Frame.guarded = 0 := by
    intro t
    by_cases ht : t = c.current
    · rw [ht]
      exact hnone
    · exact h.others t ht
  refine ⟨?_, ?_, fun t _ => hall t⟩
  · show c.nonblockingDepth = (c.stack next).countP _ + k
    rw [hall next, h.depth, hnone]
  · exact Nat.eq_zero_of_le_zero ((c.stack next).tail_sublist.countP_le.trans (hall next).le)

/-- The guards on the stack that is left stay counted. -/
theorem threadExit (next : Nat) :
    Balanced (k + c.frames.countP Frame.guarded) (c.threadExit next) := by
  have hdepth : c.nonblockingDepth = 0 + (k + c.frames.countP Frame.guarded) := by
    rw [h.depth]
    omega
  have hleft : Balanced (k + c.frames.countP Frame.guarded) (c.setFrames []) := by
    refine ⟨?_, ?_, fun t ht => ?_⟩
    · simpa [Cpu.frames, Cpu.setFrames] using hdepth
    · simp [Cpu.frames, Cpu.setFrames]
    · have ht' : t ≠ c.current := ht
      simpa [Cpu.setFrames, ht'] using h.others t ht'
  exact hleft.switch (by simp [Cpu.frames, Cpu.setFrames]) next

theorem outside_iff : c.outside ↔ c.frames.countP Frame.guarded = 0 := by
  have hbelow := h.below
  unfold Cpu.outside
  cases hframes : c.frames with
  | nil => simp
  | cons =>
    rw [hframes, tail_cons] at hbelow
    simp [countP_cons, hbelow]

/-- Where the frame on top holds no guard, no frame does. -/
theorem none_of_top (hframes : c.frames = f :: rest)
    (hf : f.guarded = false) : c.frames.countP Frame.guarded = 0 := by
  apply h.outside_iff.mp
  unfold Cpu.outside
  rw [hframes]
  simp [hf]

end Balanced

theorem step_balanced (e : Event) : Balanced (k + faults c e) (step c e) := by
  cases e with
  | syscall | pageFault =>
    simp only [step]
    split
    case h_2 => exact h
    case h_1 hframes =>
      have hpush := h.push (by rw [hframes]; rfl)
      rw [hframes] at hpush
      first | exact hpush .syscall | exact hpush .exception
  | interrupt stray =>
    simp only [step]
    split
    case h_3 => exact h
    case h_1 hframes =>
      have hpush := h.push (by rw [hframes]; rfl)
      rw [hframes] at hpush
      cases stray with
      | true => exact hpush .stray
      | false => exact hpush .handler
    case h_2 hframes =>
      have hpush := h.push (h.none_of_top hframes rfl)
      rw [hframes] at hpush
      cases stray with
      | true => exact hpush .stray
      | false => exact hpush .handler
  | handled =>
    simp only [step]
    split
    case h_4 => exact h
    case h_3 rest hframes =>
      -- The handler becomes the tail of the dispatch.
      have hbelow := h.below
      have hdepth := h.depth
      rw [hframes, countP_cons_of_pos rfl] at hdepth
      rw [hframes] at hbelow
      refine h.setFrames ?_ hbelow
      show c.nonblockingDepth - 1 = _
      rw [countP_cons_of_neg Bool.false_ne_true]
      omega
    all_goals exact h.pop (by assumption)
  | iret =>
    simp only [step]
    split
    case h_3 => exact h
    all_goals exact h.pop (by assumption)
  | fatalFault next =>
    simp only [step]
    split
    case h_1 rest hframes =>
      have hbelow := h.below
      have hexit := h.threadExit next
      rw [hframes, tail_cons] at hbelow
      rw [hframes, countP_cons, hbelow] at hexit
      unfold faults
      rw [hframes]
      exact hexit
    case h_2 hother =>
      unfold faults
      rw [if_neg]
      · exact h
      · intro hhead
        obtain ⟨rest, hframes⟩ := List.head?_eq_some_iff.mp hhead
        exact hother rest hframes
  | exit next =>
    simp only [step]
    split
    · rename_i hout
      have hexit := h.threadExit next
      rw [h.outside_iff.mp hout] at hexit
      exact hexit
    · exact h
  | switch next =>
    simp only [step]
    split
    case h_1 hframes =>
      split
      · exact h.switch (h.none_of_top hframes rfl) next
      · exact h
    case h_2 hframes => exact h.switch (by rw [hframes]; rfl) next
    case h_3 hframes => exact h.switch (h.none_of_top hframes rfl) next
    case h_4 => exact h

theorem run_balanced (events : List Event) :
    Balanced (k + fatalFaults c events) (run c events) := by
  induction events generalizing k c with
  | nil => exact h
  | cons e events ih =>
    have hrest := ih (step_balanced h e)
    rw [Nat.add_assoc] at hrest
    exact hrest

end

end

/-! ## §3. Who can block. -/

/-- What `can_block` reads besides the depth. -/
structure Context where
  schedulerStarted : Bool
  idle : Bool
  running : Bool
  schedulerCriticalDepth : Nat
  interruptsEnabled : Bool

/-- `can_block`. -/
def canBlock (c : Cpu) (context : Context) : Bool :=
  context.schedulerStarted && !context.idle && context.running && c.nonblockingDepth == 0 &&
    context.schedulerCriticalDepth == 0 && context.interruptsEnabled

/-- A thread in a system call, outside a scheduler critical section. -/
def Context.ordinary : Context := ⟨true, false, true, 0, true⟩

/-- Outside every guard the depth is the number of fatal page faults the CPU has taken. -/
theorem canBlock_iff_no_fault (events : List Event) :
    let c := run boot events
    c.outside = true → c.nonblockingDepth = fatalFaults boot events ∧
      (canBlock c .ordinary = true ↔ fatalFaults boot events = 0) := by
  intro c hout
  have hboot : Balanced 0 boot := ⟨rfl, rfl, fun _ _ => rfl⟩
  have hinv := run_balanced hboot events
  rw [Nat.zero_add] at hinv
  have hdepth : c.nonblockingDepth = fatalFaults boot events := by
    rw [hinv.depth, hinv.outside_iff.mp hout, Nat.zero_add]
  refine ⟨hdepth, ?_⟩
  unfold canBlock Context.ordinary
  rw [hdepth]
  simp

/-- A page fault that is repaired, then a system call that an interrupt has preempted. -/
theorem canBlock_after_interrupt :
    let c := run boot [.pageFault, .handled, .syscall, .interrupt false, .handled, .switch 1,
      .syscall, .switch 0, .iret]
    c.frames = [.syscall] ∧ c.outside = true ∧ canBlock c .ordinary = true :=
  ⟨by decide, by decide, (canBlock_iff_no_fault _ (by decide)).2.mpr (by decide)⟩

/-- One process dies of a page fault, and the next thread cannot block in a system call. -/
theorem fatal_fault_leaks_depth :
    let c := run boot [.pageFault, .fatalFault 1, .syscall]
    c.frames = [.syscall] ∧ c.outside = true ∧ c.nonblockingDepth = 1 ∧
      canBlock c .ordinary = false := by
  decide

/-! ## §4. Delivery on the way out. -/

section Delivery

open Proc

/-- `VectorOwner`. -/
inductive VectorOwner where
  | unknown
  | cpuException
  | syscall
  | pic
  | lapic
  | apicSpurious
  deriving Repr, DecidableEq

/-- The end of `irq_dispatch` for an interrupt that returns to the same process; `spurious`
is what `is_spurious_irq` finds. -/
def irqReturn (owner : VectorOwner) (spurious : Bool) (s : System) (root : Nat)
    (frame : InterruptFrame) (σ : SigState) : SignalOutcome × SigState × System :=
  match owner with
  | .pic =>
    if spurious then (.returned frame, σ, s)
    else if frame.isUserReturnFrame && σ.deliverable ≠ 0 then
      deliverPendingToUser s root frame σ
    else (.returned frame, σ, s)
  | _ => (.returned frame, σ, s)

/-- Whatever is done about the signal, it is no longer pending. -/
theorem deliverPendingToUser_takes {σ : SigState} (hsome : σ.deliverable ≠ 0) (s : System)
    (root : Nat) (frame : InterruptFrame) : (deliverPendingToUser s root frame σ).2.1.pending =
      σ.pending &&& ~~~signoBit (lowestSetSigno σ.deliverable) := by
  unfold deliverPendingToUser
  rw [if_neg hsome]
  dsimp only
  split
  · rfl
  split
  · rfl
  · split <;> rfl
  · rcases deliverToHandler_cases (s := s) with ⟨_, _, heq⟩ | ⟨_, _, _, _, heq⟩ <;> rw [heq]

/-- The signal next in turn is acted upon by an interrupt of the i8259 that is not spurious,
and by no other. -/
theorem irqReturn_delivers_iff (ops : List SigOp) (owner : VectorOwner) (spurious : Bool)
    (s : System) (root : Nat) (frame : InterruptFrame) (huser : frame.isUserReturnFrame = true)
    (hsome : (SigState.run ops).deliverable ≠ 0) :
    let σ := SigState.run ops
    let result := irqReturn owner spurious s root frame σ
    (result = deliverPendingToUser s root frame σ ∧
      result.2.1.pending.getLsbD (lowestSetSigno σ.deliverable - 1) = false) ↔
      owner = .pic ∧ spurious = false := by
  intro σ result
  obtain ⟨n, hn, hsigno, hpending⟩ := (SigState.run_ok ops).signo hsome
  have hgone : (deliverPendingToUser s root frame σ).2.1.pending.getLsbD n = false := by
    rw [deliverPendingToUser_takes hsome, hsigno, BitVec.getLsbD_and, BitVec.getLsbD_not,
      signoBit_bit n n hn]
    simp
  rw [hsigno, Nat.add_sub_cancel]
  constructor
  · intro ⟨_, hbit⟩
    by_contra hother
    -- Every other way out leaves the signal pending.
    have hkept : result = (.returned frame, σ, s) := by
      show irqReturn owner spurious s root frame σ = _
      unfold irqReturn
      cases owner <;> cases spurious <;> simp_all
    rw [hkept] at hbit
    cases hpending.symm.trans hbit
  · intro ⟨howner, hspurious⟩
    have hsame : result = deliverPendingToUser s root frame σ := by
      show irqReturn owner spurious s root frame σ = _
      unfold irqReturn
      rw [howner, hspurious, huser]
      rw [if_neg Bool.false_ne_true, if_pos]
      simpa using hsome
    exact ⟨hsame, by rw [hsame, hgone]⟩

theorem irqReturn_delivers_small :
    irqReturn .pic false emptySystem 1 smallFrame (SigState.run [.kill 9]) =
      deliverPendingToUser emptySystem 1 smallFrame (SigState.run [.kill 9]) :=
  ((irqReturn_delivers_iff [.kill 9] .pic false emptySystem 1 smallFrame (by decide)
    (by decide)).mpr ⟨rfl, rfl⟩).1

/-- A killed process goes on in user mode after an interrupt of the local APIC. -/
theorem lapic_return_delivers_nothing :
    (SigState.run [.kill 9]).deliverable ≠ 0 ∧ smallFrame.isUserReturnFrame = true ∧
      (irqReturn .lapic false emptySystem 1 smallFrame (SigState.run [.kill 9])).1 =
        .returned smallFrame := by
  decide

end Delivery

end BigOS.Irq
