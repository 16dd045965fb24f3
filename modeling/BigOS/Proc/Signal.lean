/-
  BigOS.Proc.Signal — signals and the two ways in which they change a return to user mode.

  A signal that is pending and not masked is taken when a process returns to user mode.
  `deliver_pending_to_user` saves the interrupted context below the stack of the process
  and redirects the return into the handler; `sigreturn` reads the saved context back from
  memory that the process may have written.  The handler itself comes from
  `sys_sigaction`, which takes any address.

  Main definitions:
    • `deliverPendingToUser`, `sigreturn` — the two returns,
    • `SigOp`, `SigState.run` — how the state of the signals of a process changes,
    • `Contained` — what a return may not do.
  Main results:
    • `SigState.run_ok` — the invariant of the state along every run,
    • `returns_contained_iff` — when both returns are contained.
-/
import BigOS.Proc.UserBuffers

namespace BigOS.Proc

open BigOS.Lib BigOS.Mm Function Bool BitVec Proc.System
open BigOS.Mm.Paging (PageAttr)

variable {σ τ : SigState} {s t : System} {root : Nat} {frame frame' : InterruptFrame} {set : SigSet}
  {handler : BitVec 64}

/-! ## §1. The state of the signals. -/

def SIGKILL : Int := 9
def SIGUSR1 : Int := 10
def SIGSEGV : Int := 11
def SIGCHLD : Int := 17
def SIG_MIN : Int := 1
def SIG_MAX : Int := 31
def SIGNAL_TERMINATE_STATUS_BASE : Int := 128

/-- `SigSet`: the bit `signo - 1` stands for the signal `signo`. -/
abbrev SigSet := BitVec 64

inductive DefaultAction where
  | terminate
  | ignore
  deriving Repr, DecidableEq

inductive SigAction where
  | default
  | ignore
  | handler
  deriving Repr, DecidableEq

structure SigDisposition where
  action : SigAction
  handler : BitVec 64
  deriving Repr, DecidableEq

/-- The signal fields of a `Process`; `disp` is indexed by `signo - 1`. -/
structure SigState where
  pending : SigSet
  mask : SigSet
  disp : Nat → SigDisposition

def validSigno (signo : Int) : Bool := SIG_MIN ≤ signo && signo ≤ SIG_MAX

def isUncatchable (signo : Int) : Bool := signo == SIGKILL

def defaultAction (signo : Int) : DefaultAction :=
  if signo = SIGCHLD then .ignore else .terminate

def signoBit (signo : Int) : SigSet :=
  if validSigno signo then 1#64 <<< (signo - 1).toNat else 0

/-- `lowest_set_signo`. -/
def lowestSetSigno (set : SigSet) : Nat :=
  if set = 0 then 0 else ((List.range 64).find? set.getLsbD).getD 0 + 1

namespace SigState

/-- `init_state`. -/
def init : SigState where
  pending := 0
  mask := 0
  disp := fun _ => ⟨.default, 0⟩

/-- `inherit_on_fork`: the state of the child. -/
def inheritOnFork (σ : SigState) : SigState := { σ with pending := 0 }

/-- `reset_handlers_on_exec`. -/
def resetHandlersOnExec (σ : SigState) : SigState :=
  { σ with disp := fun i => if (σ.disp i).action = .handler then ⟨.default, 0⟩ else σ.disp i }

/-- `kill`. -/
def kill (σ : SigState) (signo : Int) : Except Errno SigState :=
  if !validSigno signo then .error .einval
  else .ok { σ with pending := σ.pending ||| signoBit signo }

/-- `has_deliverable_signal` and `deliver_pending_to_user`: what is not masked, and
`SIGKILL` in any case. -/
def deliverable (σ : SigState) : SigSet :=
  (σ.pending &&& ~~~σ.mask) ||| (σ.pending &&& signoBit SIGKILL)

/-- `set_disposition` with a new disposition. -/
def setDisposition (σ : SigState) (signo : Int) (new : SigDisposition) : Except Errno SigState :=
  if !validSigno signo then .error .einval
  else if isUncatchable signo && new.action ≠ .default then .error .einval
  else .ok { σ with disp := update σ.disp (signo - 1).toNat new }

end SigState

/-- `SigProcMaskHow`. -/
def SIG_BLOCK : Nat := 0
def SIG_UNBLOCK : Nat := 1
def SIG_SETMASK : Nat := 2

/-- `set_mask`. -/
def SigState.setMask (σ : SigState) (how : Nat) (set : SigSet) : Except Errno SigState :=
  let requested := set &&& ~~~signoBit SIGKILL
  if how = SIG_BLOCK then .ok { σ with mask := σ.mask ||| requested }
  else if how = SIG_UNBLOCK then .ok { σ with mask := σ.mask &&& ~~~set }
  else if how = SIG_SETMASK then .ok { σ with mask := requested }
  else .error .einval

/-- `(int)value` of a 64-bit register. -/
def toInt32 (value : BitVec 64) : Int := (value.truncate 32).toInt

/-- `(SigAction)value` of a checked register. -/
def SigAction.ofNat? : Nat → Option SigAction
  | 0 => some .default
  | 1 => some .ignore
  | 2 => some .handler
  | _ => none

/-- `sys_sigaction`, without what it copies out. -/
def SigState.sysSigaction (σ : SigState) (signo action handler : BitVec 64) :
    Except Errno SigState :=
  match SigAction.ofNat? action.toNat with
  | none => .error .einval
  | some action => σ.setDisposition (toInt32 signo) ⟨action, handler⟩

/-- `sys_sigprocmask`, without what it copies out. -/
def SigState.sysSigprocmask (σ : SigState) (how set : BitVec 64) : Except Errno SigState :=
  σ.setMask how.toNat set

/-! ## §2. The frames. -/

/-- The general registers, in the order in which both frames hold them. -/
structure Registers where
  r15 : BitVec 64
  r14 : BitVec 64
  r13 : BitVec 64
  r12 : BitVec 64
  r11 : BitVec 64
  r10 : BitVec 64
  r9 : BitVec 64
  r8 : BitVec 64
  rdi : BitVec 64
  rsi : BitVec 64
  rbp : BitVec 64
  rdx : BitVec 64
  rcx : BitVec 64
  rbx : BitVec 64
  rax : BitVec 64
  deriving Repr, DecidableEq

/-- `InterruptFrame`, with the stack of the iret tail loaded into `rsp` and `ss`. -/
structure InterruptFrame where
  regs : Registers
  rsp : BitVec 64
  ss : BitVec 64
  vector : BitVec 64
  errorCode : BitVec 64
  rip : BitVec 64
  cs : BitVec 64
  rflags : BitVec 64
  deriving Repr, DecidableEq

structure SignalFrame where
  magic : BitVec 64
  signo : BitVec 64
  savedMask : SigSet
  regs : Registers
  rip : BitVec 64
  rsp : BitVec 64
  rflags : BitVec 64
  deriving Repr, DecidableEq

def SIGFRAME_MAGIC : BitVec 64 := 0x4249475349474652#64
def SIGNAL_FRAME_SIZE : Nat := 168
def RFLAGS_USER_SAFE : BitVec 64 := 0xCD5#64
def RFLAGS_IF : BitVec 64 := 1#64 <<< 9
def RFLAGS_RESERVED_ONE : BitVec 64 := 1#64 <<< 1
def USER_RED_ZONE : BitVec 64 := 128#64
def STACK_ALIGN : BitVec 64 := 16#64
def USER_DATA_SELECTOR : BitVec 64 := 0x23#64
def USER_CODE_SELECTOR : BitVec 64 := 0x2b#64
def RPL_MASK : BitVec 64 := 3#64
def USER_RPL : BitVec 64 := 3#64

def Registers.words (regs : Registers) : List (BitVec 64) :=
  [regs.r15, regs.r14, regs.r13, regs.r12, regs.r11, regs.r10, regs.r9, regs.r8, regs.rdi,
    regs.rsi, regs.rbp, regs.rdx, regs.rcx, regs.rbx, regs.rax]

def SignalFrame.words (sf : SignalFrame) : List (BitVec 64) :=
  [sf.magic, sf.signo, sf.savedMask] ++ sf.regs.words ++ [sf.rip, sf.rsp, sf.rflags]

/-- The object as it lies in memory. -/
def SignalFrame.bytes (sf : SignalFrame) : List UInt8 :=
  sf.words.flatMap fun word => wordBytes word.toNat

/-- The word of an object in memory. -/
def wordAt (bytes : List UInt8) (index : Nat) : BitVec 64 :=
  BitVec.ofNat 64 (readLe (fun i => (bytes[i]?).getD 0) (8 * index) 8)

def Registers.ofBytes (bytes : List UInt8) : Registers where
  r15 := wordAt bytes 3
  r14 := wordAt bytes 4
  r13 := wordAt bytes 5
  r12 := wordAt bytes 6
  r11 := wordAt bytes 7
  r10 := wordAt bytes 8
  r9 := wordAt bytes 9
  r8 := wordAt bytes 10
  rdi := wordAt bytes 11
  rsi := wordAt bytes 12
  rbp := wordAt bytes 13
  rdx := wordAt bytes 14
  rcx := wordAt bytes 15
  rbx := wordAt bytes 16
  rax := wordAt bytes 17

def SignalFrame.ofBytes (bytes : List UInt8) : SignalFrame where
  magic := wordAt bytes 0
  signo := wordAt bytes 1
  savedMask := wordAt bytes 2
  regs := Registers.ofBytes bytes
  rip := wordAt bytes 18
  rsp := wordAt bytes 19
  rflags := wordAt bytes 20

/-- `is_user_return_frame`. -/
def InterruptFrame.isUserReturnFrame (frame : InterruptFrame) : Bool :=
  frame.cs &&& RPL_MASK == USER_RPL

/-- `force_user_return_frame`. -/
def InterruptFrame.forceUserReturnFrame (frame : InterruptFrame) (rflags : BitVec 64) :
    InterruptFrame :=
  { frame with cs := USER_CODE_SELECTOR, ss := USER_DATA_SELECTOR, rflags := rflags }

/-! ## §3. Delivery and return. -/

/-- A return to user mode, or `fault_current_and_exit` with a status. -/
inductive SignalOutcome where
  | returned (frame : InterruptFrame)
  | exits (status : Int)
  deriving Repr, DecidableEq

def terminateBy (signo : Int) : SignalOutcome := .exits (-(SIGNAL_TERMINATE_STATUS_BASE + signo))

/-- Where the frame of a handler lies. -/
def signalFrameAddr (rsp : BitVec 64) : BitVec 64 :=
  (rsp - USER_RED_ZONE - BitVec.ofNat 64 SIGNAL_FRAME_SIZE) &&& ~~~(STACK_ALIGN - 1)

def InterruptFrame.saved (frame : InterruptFrame) (signo : Nat) (mask : SigSet) : SignalFrame where
  magic := SIGFRAME_MAGIC
  signo := BitVec.ofNat 64 signo
  savedMask := mask
  regs := frame.regs
  rip := frame.rip
  rsp := frame.rsp
  rflags := frame.rflags

/-- The return into a handler. -/
def InterruptFrame.redirected (frame : InterruptFrame) (handler addr : BitVec 64) (signo : Nat) :
    InterruptFrame :=
  { frame with
    rip := handler, rsp := addr, regs := { frame.regs with rdi := BitVec.ofNat 64 signo } }

/-- The part of `deliver_pending_to_user` for a signal with a handler. -/
def deliverToHandler (s : System) (root : Nat) (frame : InterruptFrame) (σ : SigState)
    (signo : Nat) (handler : BitVec 64) : SignalOutcome × SigState × System :=
  let addr := signalFrameAddr frame.rsp
  if USER_LOW_HALF_LIMIT ≤ addr.toNat ||
      !s.validateUserIoBuffer root addr.toNat SIGNAL_FRAME_SIZE then
    (terminateBy SIGSEGV, σ, s)
  else
    match s.copyToCurrentUserBuffer root addr.toNat (frame.saved signo σ.mask).bytes with
    | (false, s) => (terminateBy SIGSEGV, σ, s)
    | (true, s) =>
      (.returned (frame.redirected handler addr signo),
        { σ with mask := σ.mask ||| signoBit signo }, s)

/-- `deliver_pending_to_user`. -/
def deliverPendingToUser (s : System) (root : Nat) (frame : InterruptFrame) (σ : SigState) :
    SignalOutcome × SigState × System :=
  if σ.deliverable = 0 then (.returned frame, σ, s)
  else
    let signo := lowestSetSigno σ.deliverable
    let taken : SigState := { σ with pending := σ.pending &&& ~~~signoBit signo }
    let disp := σ.disp (signo - 1)
    if isUncatchable signo then (terminateBy signo, taken, s)
    else
      match disp.action with
      | .ignore => (.returned frame, taken, s)
      | .default =>
        if defaultAction signo = .terminate then (terminateBy signo, taken, s)
        else (.returned frame, taken, s)
      | .handler => deliverToHandler s root frame taken signo disp.handler

/-- The loop of `read_user_chunked`. -/
def System.readUserChunked (s : System) (root : Nat) : Nat → Nat → Nat → Option (List UInt8)
  | 0, _, remaining => if remaining = 0 then some [] else none
  | fuel + 1, addr, remaining =>
    if remaining = 0 then some []
    else
      let chunk := if 64 < remaining then 64 else remaining
      match s.copyCurrentUserBuffer root addr chunk with
      | (false, _) => none
      | (true, bytes) =>
        (s.readUserChunked root fuel ((addr + chunk) % 2 ^ 64) (remaining - chunk)).map
          (bytes ++ ·)

/-- The context that `sigreturn` restores. -/
def InterruptFrame.restored (frame : InterruptFrame) (sf : SignalFrame) : InterruptFrame :=
  { frame with regs := sf.regs, rip := sf.rip, rsp := sf.rsp }.forceUserReturnFrame
    ((sf.rflags &&& RFLAGS_USER_SAFE) ||| RFLAGS_IF ||| RFLAGS_RESERVED_ONE)

/-- `sigreturn`. -/
def sigreturn (s : System) (root : Nat) (frame : InterruptFrame) (σ : SigState) :
    SignalOutcome × SigState × System :=
  match s.readUserChunked root SIGNAL_FRAME_SIZE frame.rsp.toNat SIGNAL_FRAME_SIZE with
  | none => (terminateBy SIGSEGV, σ, s)
  | some bytes =>
    let sf := SignalFrame.ofBytes bytes
    if sf.magic ≠ SIGFRAME_MAGIC then (terminateBy SIGSEGV, σ, s)
    else if USER_LOW_HALF_LIMIT ≤ sf.rip.toNat || USER_LOW_HALF_LIMIT ≤ sf.rsp.toNat then
      (terminateBy SIGSEGV, σ, s)
    else
      (.returned (frame.restored sf), { σ with mask := sf.savedMask &&& ~~~signoBit SIGKILL }, s)

/-! ## §4. The bits of the masks. -/

theorem signoBit_bit (n i : Nat) (hvalid : n < 31) :
    (signoBit (n + 1 : Nat)).getLsbD i = decide (i = n) := by
  have hbounds : validSigno (n + 1 : Nat) := by
    unfold validSigno SIG_MIN SIG_MAX
    rw [and_eq_true, decide_eq_true_eq, decide_eq_true_eq]
    omega
  unfold signoBit
  rw [if_pos hbounds, show ((n + 1 : Nat) - 1 : Int).toNat = n by omega, ← twoPow_eq,
    getLsbD_twoPow]
  by_cases hi : i = n
  · rw [hi]
    simp
    omega
  · simp [hi, Ne.symm hi]

theorem sigkill_bit (i : Nat) : (signoBit SIGKILL).getLsbD i = decide (i = 8) :=
  signoBit_bit 8 i (by omega)

/-- No signal has a bit above its number. -/
theorem signoBit_high (signo : Int) {i : Nat} (hi : 31 ≤ i) :
    (signoBit signo).getLsbD i = false := by
  unfold signoBit
  split
  · rename_i hvalid
    unfold validSigno SIG_MIN SIG_MAX at hvalid
    rw [and_eq_true, decide_eq_true_eq, decide_eq_true_eq] at hvalid
    rw [← twoPow_eq, getLsbD_twoPow]
    rw [and_eq_false_iff, decide_eq_false_iff_not, decide_eq_false_iff_not]
    omega
  · simp

theorem lowestSetSigno_bit (h : set ≠ 0) :
    ∃ i < 64, lowestSetSigno set = i + 1 ∧ set.getLsbD i := by
  have hbit : ∃ i ∈ List.range 64, set.getLsbD i := by
    by_contra hnone
    refine h (eq_of_getLsbD_eq (fun i hi => ?_))
    by_contra hset
    exact hnone ⟨i, List.mem_range.mpr hi, by simpa using hset⟩
  unfold lowestSetSigno
  rw [if_neg h]
  cases hfind : (List.range 64).find? set.getLsbD with
  | none =>
    obtain ⟨i, hi, hset⟩ := hbit
    exact absurd hset (List.find?_eq_none.mp hfind i hi)
  | some i =>
    exact ⟨i, List.mem_range.mp (List.mem_of_find?_eq_some hfind), rfl, List.find?_some hfind⟩

/-! ## §5. The invariant of the state. -/

/-- Only signals are pending, and `SIGKILL` is neither masked nor given a disposition. -/
structure SigState.Ok (σ : SigState) : Prop where
  pending : ∀ i, 31 ≤ i → σ.pending.getLsbD i = false
  unmasked : σ.mask.getLsbD 8 = false
  uncaught : (σ.disp 8).action = .default

theorem SigState.init_ok : SigState.init.Ok := by
  constructor
  · intro i _
    show (0#64).getLsbD i = false
    exact getLsbD_zero
  · rfl
  · rfl

namespace SigState.Ok

theorem kill {signo : Int} (h : σ.Ok) (hτ : σ.kill signo = .ok τ) : τ.Ok := by
  unfold SigState.kill at hτ
  split at hτ
  · cases hτ
  cases hτ
  refine ⟨fun i hi => ?_, h.unmasked, h.uncaught⟩
  show (σ.pending ||| signoBit signo).getLsbD i = false
  rw [getLsbD_or, h.pending i hi, signoBit_high signo hi]
  rfl

theorem setDisposition {signo : Int} {new : SigDisposition} (h : σ.Ok)
    (hτ : σ.setDisposition signo new = .ok τ) : τ.Ok := by
  unfold SigState.setDisposition at hτ
  split at hτ
  · cases hτ
  rename_i hvalid
  split at hτ
  · cases hτ
  rename_i hcatch
  cases hτ
  refine ⟨h.pending, h.unmasked, ?_⟩
  show (update σ.disp (signo - 1).toNat new 8).action = .default
  by_cases hslot : (8 : Nat) = (signo - 1).toNat
  · -- The slot is the one of `SIGKILL`, whose new disposition is the default one.
    have hsigno : signo = 9 := by omega
    rw [hslot, update_self]
    subst hsigno
    simpa [isUncatchable, SIGKILL] using hcatch
  · rw [update_of_ne hslot]
    exact h.uncaught

theorem setMask {how : Nat} (h : σ.Ok) (hτ : σ.setMask how set = .ok τ) : τ.Ok := by
  have hrequested : (set &&& ~~~signoBit SIGKILL).getLsbD 8 = false := by
    rw [getLsbD_and, getLsbD_not, sigkill_bit]
    simp
  unfold SigState.setMask at hτ
  split at hτ
  · cases hτ
    refine ⟨h.pending, ?_, h.uncaught⟩
    show (σ.mask ||| (set &&& ~~~signoBit SIGKILL)).getLsbD 8 = false
    rw [getLsbD_or, h.unmasked, hrequested]
    rfl
  · split at hτ
    · cases hτ
      refine ⟨h.pending, ?_, h.uncaught⟩
      show (σ.mask &&& ~~~set).getLsbD 8 = false
      rw [getLsbD_and, h.unmasked]
      rfl
    · split at hτ
      · cases hτ
        exact ⟨h.pending, hrequested, h.uncaught⟩
      · cases hτ

theorem resetHandlersOnExec (h : σ.Ok) : σ.resetHandlersOnExec.Ok := by
  refine ⟨h.pending, h.unmasked, ?_⟩
  show (if (σ.disp 8).action = .handler then _ else σ.disp 8).action = .default
  rw [if_neg (by rw [h.uncaught]; decide)]
  exact h.uncaught

/-- Taking a signal off the pending ones. -/
theorem take (h : σ.Ok) (bit : SigSet) :
    SigState.Ok { σ with pending := σ.pending &&& ~~~bit } := by
  refine ⟨fun i hi => ?_, h.unmasked, h.uncaught⟩
  show (σ.pending &&& ~~~bit).getLsbD i = false
  rw [getLsbD_and, h.pending i hi]
  rfl

/-- The signal that is delivered is one of those that exist. -/
theorem signo (h : σ.Ok) (hsome : σ.deliverable ≠ 0) :
    ∃ n < 31, lowestSetSigno σ.deliverable = n + 1 ∧ σ.pending.getLsbD n := by
  obtain ⟨n, _, hsigno, hbit⟩ := lowestSetSigno_bit hsome
  have hpending : σ.pending.getLsbD n := by
    unfold SigState.deliverable at hbit
    rw [getLsbD_or, getLsbD_and, getLsbD_and, or_eq_true, and_eq_true, and_eq_true] at hbit
    rcases hbit with hbit | hbit <;> exact hbit.1
  refine ⟨n, ?_, hsigno, hpending⟩
  by_contra hge
  rw [h.pending n (by omega)] at hpending
  cases hpending

end SigState.Ok

/-! ## §6. What a return may not do. -/

/-- The flags that a process may choose. -/
def RFLAGS_FROM_USER : BitVec 64 := RFLAGS_USER_SAFE ||| RFLAGS_IF ||| RFLAGS_RESERVED_ONE

/-- A frame of ring 3, interrupted with interrupts enabled. -/
structure InterruptFrame.OfUser (frame : InterruptFrame) : Prop where
  code : frame.cs &&& RPL_MASK = USER_RPL
  data : frame.ss &&& RPL_MASK = USER_RPL
  interrupts : frame.rflags.getLsbD 9

/-- A change of memory that is one of bytes that the process can store to itself. -/
structure OwnWrites (root : Nat) (s t : System) : Prop where
  rest : t = { s with memory := t.memory }
  bytes : ∀ f offset, t.memory f offset ≠ s.memory f offset → ∃ addr leaf,
    s.canStore root addr ∧ s.leafAt root (pageDown addr) = some leaf ∧
      leaf.frame = f ∧ addr % PAGE_SIZE = offset

/-- A return from `frame` to `frame'` that is contained. -/
structure Contained (root : Nat) (s t : System) (frame frame' : InterruptFrame) (σ τ : SigState) :
    Prop where
  rip : frame'.rip.toNat < USER_LOW_HALF_LIMIT
  rsp : frame'.rsp.toNat < USER_LOW_HALF_LIMIT
  ring : frame'.OfUser
  /-- The flags are those that the processor had, or ones that a process may choose. -/
  flags : frame'.rflags = frame.rflags ∨ frame'.rflags &&& ~~~RFLAGS_FROM_USER = 0
  unmasked : τ.mask.getLsbD 8 = false
  uncaught : (τ.disp 8).action = .default
  /-- A return never takes a `SIGKILL` off the pending signals. -/
  unhandled : τ.pending.getLsbD 8 = σ.pending.getLsbD 8
  writes : OwnWrites root s t

theorem OwnWrites.refl (root : Nat) (s : System) : OwnWrites root s s :=
  ⟨rfl, fun _ _ hne => absurd rfl hne⟩

/-- One store. -/
theorem OwnWrites.store {a : Nat} (byte : UInt8) (h : s.canStore root a) :
    OwnWrites root s (s.store root a byte) := by
  have hcan := h
  unfold canStore at h
  rw [Option.any_eq_true] at h
  obtain ⟨space, hspace, h⟩ := h
  rw [Option.any_eq_true] at h
  obtain ⟨leaf, hleaf, h⟩ := h
  unfold Leaf.writable at h
  simp only [and_eq_true] at h
  have hstore : s.store root a byte = { s with
      memory := update s.memory leaf.frame
        (update (s.memory leaf.frame) (a % PAGE_SIZE) byte) } := by
    unfold System.store
    rw [hspace]
    dsimp only
    rw [hleaf]
    dsimp only
    rw [if_pos (by simp [h])]
  rw [hstore]
  refine ⟨rfl, fun f offset hne => ?_⟩
  refine ⟨a, leaf, hcan, (leafAt_eq hspace _).trans hleaf, ?_⟩
  by_cases hf : f = leaf.frame
  · subst hf
    by_cases ho : offset = a % PAGE_SIZE
    · exact ⟨rfl, ho.symm⟩
    · dsimp only at hne
      rw [update_self, update_of_ne ho] at hne
      exact absurd rfl hne
  · dsimp only at hne
    rw [update_of_ne hf] at hne
    exact absurd rfl hne

theorem OwnWrites.trans {u : System} (h : OwnWrites root s t) (h' : OwnWrites root t u) :
    OwnWrites root s u := by
  have hspaces : t.spaces = s.spaces := (congrArg spaces h.rest :)
  refine ⟨?_, fun f offset hne => ?_⟩
  · rw [h'.rest, h.rest]
  · by_cases hsecond : u.memory f offset = t.memory f offset
    · exact h.bytes f offset (hsecond ▸ hne)
    obtain ⟨addr, leaf, hcan, hleaf, hrest⟩ := h'.bytes f offset hsecond
    refine ⟨addr, leaf, ?_, ?_, hrest⟩
    · unfold canStore at hcan ⊢
      rwa [hspaces] at hcan
    · unfold leafAt at hleaf ⊢
      rwa [hspaces] at hleaf

theorem OwnWrites.storeBytes (data : List UInt8) :
    ∀ addr s, (∀ i < data.length, s.canStore root (addr + i)) →
      OwnWrites root s (storeBytes root addr data s) := by
  induction data with
  | nil => exact fun addr s _ => .refl root s
  | cons byte rest ih =>
    intro addr s hall
    refine (OwnWrites.store byte (hall 0 (by simp))).trans (ih (addr + 1) _ (fun i hi => ?_))
    rw [canStore, store_spaces, show addr + 1 + i = addr + (i + 1) by omega]
    exact hall (i + 1) (by simpa using hi)

/-- A copy that succeeds. -/
theorem OwnWrites.copyTo {addr : Nat} {src : List UInt8}
    (h : s.copyToCurrentUserBuffer root addr src = (true, t)) :
    OwnWrites root s t ∧ addr < USER_LOW_HALF_LIMIT ∧ s.WriteReady root addr src.length := by
  obtain ⟨hiff, k, _, hall, hstate⟩ := copyToCurrentUserBuffer_spec s root addr src
  have hdone : (s.copyToCurrentUserBuffer root addr src).1 := by rw [h]
  have hready := hiff.mp hdone
  rw [hall hdone, List.take_length, h] at hstate
  obtain ⟨space, hspace, hrun, hpos, hlimit⟩ := bufferAllowed_some hready.1
  refine ⟨?_, by omega, hready⟩
  show OwnWrites root s t
  rw [show t = System.storeBytes root addr src s from hstate]
  refine .storeBytes src addr s (fun i hi => ?_)
  have hbyte := hready.2 i hi
  rw [canStore_iff hspace hrun]
  unfold writeReady at hbyte
  rw [Option.any_eq_true] at hbyte ⊢
  obtain ⟨leaf, hleaf, hok⟩ := hbyte
  exact ⟨leaf, hleaf, (and_eq_true _ _ ▸ hok).1⟩

/-- The interrupted context goes on as it is: no signal is taken, or one that is ignored. -/
def SigState.passes (σ : SigState) : Bool :=
  let signo := lowestSetSigno σ.deliverable
  let disp := σ.disp (signo - 1)
  σ.deliverable == 0 || !isUncatchable signo &&
    (disp.action == .ignore || disp.action == .default && defaultAction signo == .ignore)

/-- The handler that takes the next signal. -/
def SigState.taker (σ : SigState) : Option (BitVec 64) :=
  let signo := lowestSetSigno σ.deliverable
  let disp := σ.disp (signo - 1)
  if σ.deliverable ≠ 0 ∧ isUncatchable signo = false ∧ disp.action = .handler then
    some disp.handler
  else none

theorem SignalFrame.bytes_length (sf : SignalFrame) : sf.bytes.length = SIGNAL_FRAME_SIZE := by
  simp [SignalFrame.bytes, SignalFrame.words, Registers.words, wordBytes, SIGNAL_FRAME_SIZE]

/-- A delivery to a handler redirects the context when the frame can be written, and
terminates the process otherwise. -/
theorem deliverToHandler_cases {signo : Nat} :
    (¬s.WriteReady root (signalFrameAddr frame.rsp).toNat SIGNAL_FRAME_SIZE ∧
      ∃ t, deliverToHandler s root frame σ signo handler = (terminateBy SIGSEGV, σ, t)) ∨
    (s.WriteReady root (signalFrameAddr frame.rsp).toNat SIGNAL_FRAME_SIZE ∧
      (signalFrameAddr frame.rsp).toNat < USER_LOW_HALF_LIMIT ∧
      ∃ t, OwnWrites root s t ∧ deliverToHandler s root frame σ signo handler =
        (.returned (frame.redirected handler (signalFrameAddr frame.rsp) signo),
          { σ with mask := σ.mask ||| signoBit signo }, t)) := by
  have hlength := (frame.saved signo σ.mask).bytes_length
  unfold deliverToHandler
  dsimp only
  by_cases hready : s.WriteReady root (signalFrameAddr frame.rsp).toNat SIGNAL_FRAME_SIZE
  · have hbytes := hready
    rw [← hlength] at hbytes
    obtain ⟨hvalid, t, hcopy, _⟩ := WriteReady.writes (fun _ => smallFault 0) hbytes
    rw [hlength] at hvalid
    obtain ⟨hwrites, hlimit, _⟩ := OwnWrites.copyTo hcopy
    rw [if_neg (by simp [hvalid]; omega), hcopy]
    exact .inr ⟨hready, hlimit, t, hwrites, rfl⟩
  · refine .inl ⟨hready, ?_⟩
    split
    · exact ⟨s, rfl⟩
    split
    · rename_i t _
      exact ⟨t, rfl⟩
    · rename_i t hcopy
      have hwritten := (OwnWrites.copyTo hcopy).2.2
      rw [hlength] at hwritten
      exact absurd hwritten hready

/-- What a delivery does, with the state after a signal is taken: the context goes on, a
handler takes the signal, or the process is terminated. -/
theorem deliver_cases (hok : σ.Ok) (s : System) (root : Nat) (frame : InterruptFrame) :
    ∃ taken : SigState, taken.Ok ∧
      ((σ.passes ∧ σ.taker = none ∧ taken.pending.getLsbD 8 = σ.pending.getLsbD 8 ∧
          deliverPendingToUser s root frame σ = (.returned frame, taken, s)) ∨
        (σ.passes = false ∧ ∃ n < 31, 8 ≠ n ∧ ∃ handler, σ.taker = some handler ∧
          taken.pending.getLsbD 8 = σ.pending.getLsbD 8 ∧ deliverPendingToUser s root frame σ =
            deliverToHandler s root frame taken (n + 1) handler) ∨
        σ.passes = false ∧ σ.taker = none ∧ ∃ signo,
          deliverPendingToUser s root frame σ = (terminateBy signo, taken, s)) := by
  unfold SigState.passes SigState.taker deliverPendingToUser
  by_cases hnone : σ.deliverable = 0
  · rw [if_pos hnone]
    exact ⟨σ, hok, .inl ⟨by simp [hnone], by simp [hnone], rfl, rfl⟩⟩
  obtain ⟨n, hn, hsigno, _⟩ := hok.signo hnone
  dsimp only
  rw [if_neg hnone, hsigno, beq_false_of_ne hnone]
  refine ⟨_, hok.take (signoBit (n + 1 : Nat)), ?_⟩
  by_cases hcatch : isUncatchable (n + 1 : Nat)
  · rw [if_pos hcatch]
    exact .inr (.inr ⟨by rw [hcatch]; rfl, by rw [hcatch]; simp, _, rfl⟩)
  rw [if_neg hcatch]
  rw [not_eq_true] at hcatch
  have hne : 8 ≠ n := by
    intro heq
    subst heq
    exact absurd hcatch (by decide)
  have hkill : (σ.pending &&& ~~~signoBit (n + 1 : Nat)).getLsbD 8 = σ.pending.getLsbD 8 := by
    rw [getLsbD_and, getLsbD_not, signoBit_bit n 8 hn]
    simp [hne]
  cases haction : (σ.disp (n + 1 - 1)).action with
  | ignore => exact .inl ⟨by rw [hcatch]; rfl, by simp, hkill, rfl⟩
  | default =>
    cases hdefault : defaultAction (n + 1 : Nat) with
    | terminate => exact .inr (.inr ⟨by rw [hcatch]; rfl, by simp, _, rfl⟩)
    | ignore => exact .inl ⟨by rw [hcatch]; rfl, by simp, hkill, rfl⟩
  | handler =>
    refine .inr (.inl ⟨by rw [hcatch]; rfl, n, hn, hne, _, if_pos ⟨hnone, hcatch, rfl⟩, hkill, rfl⟩)

/-! ## §7. Runs. -/

theorem SigState.Ok.deliver (h : σ.Ok) (s : System) (root : Nat) (frame : InterruptFrame) :
    (deliverPendingToUser s root frame σ).2.1.Ok := by
  obtain ⟨taken, htaken, ⟨_, _, _, heq⟩ | ⟨_, n, hn, hne, handler, _, _, heq⟩ | ⟨_, _, _, heq⟩⟩ :=
    deliver_cases h s root frame <;> rw [heq]
  · exact htaken
  · rcases deliverToHandler_cases (s := s) with ⟨_, t, hno⟩ | ⟨_, _, t, _, hdone⟩
    · rw [hno]
      exact htaken
    rw [hdone]
    refine ⟨htaken.pending, ?_, htaken.uncaught⟩
    show (taken.mask ||| signoBit (n + 1 : Nat)).getLsbD 8 = false
    rw [getLsbD_or, htaken.unmasked, signoBit_bit n 8 hn]
    simpa using hne
  · exact htaken

theorem SigState.Ok.sigreturn (h : σ.Ok) (s : System) (root : Nat) (frame : InterruptFrame) :
    (sigreturn s root frame σ).2.1.Ok := by
  unfold BigOS.Proc.sigreturn
  split
  · exact h
  dsimp only
  split
  · exact h
  split
  · exact h
  rename_i bytes _ _ _
  refine ⟨h.pending, ?_, h.uncaught⟩
  show ((SignalFrame.ofBytes bytes).savedMask &&& ~~~signoBit SIGKILL).getLsbD 8 = false
  rw [getLsbD_and, getLsbD_not, sigkill_bit]
  simp

/-- What changes the state of the signals of a process, with the memory and the frame that
the two returns find. -/
inductive SigOp where
  | kill (signo : BitVec 64)
  | sigaction (signo action handler : BitVec 64)
  | sigprocmask (how set : BitVec 64)
  | fork
  | exec
  | deliver (s : System) (root : Nat) (frame : InterruptFrame)
  | sigreturn (s : System) (root : Nat) (frame : InterruptFrame)

/-- A failed call leaves the state as it is. -/
def SigState.orKeep (σ : SigState) : Except Errno SigState → SigState
  | .ok τ => τ
  | .error _ => σ

def SigState.step (σ : SigState) : SigOp → SigState
  | .kill signo => σ.orKeep (σ.kill (toInt32 signo))
  | .sigaction signo action handler => σ.orKeep (σ.sysSigaction signo action handler)
  | .sigprocmask how set => σ.orKeep (σ.sysSigprocmask how set)
  | .fork => σ.inheritOnFork
  | .exec => σ.resetHandlersOnExec
  | .deliver s root frame => (deliverPendingToUser s root frame σ).2.1
  | .sigreturn s root frame => (BigOS.Proc.sigreturn s root frame σ).2.1

/-- The state of a process, or of one that it comes from, after a run. -/
def SigState.run (ops : List SigOp) : SigState := ops.foldl SigState.step .init

theorem SigState.Ok.orKeep {result : Except Errno SigState} (h : σ.Ok)
    (hok : ∀ τ, result = .ok τ → τ.Ok) : (σ.orKeep result).Ok := by
  cases result with
  | ok τ => exact hok τ rfl
  | error => exact h

theorem SigState.Ok.step (h : σ.Ok) (op : SigOp) : (σ.step op).Ok := by
  cases op with
  | kill => exact h.orKeep (fun τ hτ => h.kill hτ)
  | sigaction =>
    refine h.orKeep (fun τ hτ => ?_)
    unfold SigState.sysSigaction at hτ
    split at hτ
    · cases hτ
    · exact h.setDisposition hτ
  | sigprocmask => exact h.orKeep (fun τ hτ => h.setMask hτ)
  | fork =>
    refine ⟨fun i _ => ?_, h.unmasked, h.uncaught⟩
    show (0#64).getLsbD i = false
    exact getLsbD_zero
  | exec => exact h.resetHandlersOnExec
  | deliver s root frame => exact h.deliver s root frame
  | sigreturn s root frame => exact h.sigreturn s root frame

theorem SigState.run_ok (ops : List SigOp) : (SigState.run ops).Ok := by
  have hfold : ∀ σ : SigState, σ.Ok → (ops.foldl SigState.step σ).Ok := by
    induction ops with
    | nil => exact fun σ h => h
    | cons op ops ih => exact fun σ h => ih (σ.step op) (h.step op)
  exact hfold _ SigState.init_ok

/-! ## §8. When the returns are contained. -/

/-- The interrupted context is one of the lower half if it goes on, and so is a handler
whose frame can be written. -/
def DeliverySafe (s : System) (root : Nat) (frame : InterruptFrame) (σ : SigState) : Prop :=
  (σ.passes → frame.rip.toNat < USER_LOW_HALF_LIMIT ∧ frame.rsp.toNat < USER_LOW_HALF_LIMIT) ∧
  ∀ handler, σ.taker = some handler →
    s.WriteReady root (signalFrameAddr frame.rsp).toNat SIGNAL_FRAME_SIZE →
      handler.toNat < USER_LOW_HALF_LIMIT

/-- A delivery is contained exactly when the context that goes on, or the handler that
takes over, is of the lower half. -/
theorem deliver_contained_iff (hok : σ.Ok) (huser : frame.OfUser) :
    (∀ frame' τ t, deliverPendingToUser s root frame σ = (.returned frame', τ, t) →
      Contained root s t frame frame' σ τ) ↔ DeliverySafe s root frame σ := by
  have hnext := hok.deliver s root frame
  obtain ⟨taken, _, ⟨hpass, htaker, hkill, heq⟩ |
    ⟨hpass, n, _, _, handler, htaker, hkill, heq⟩ | ⟨hpass, htaker, _, heq⟩⟩ :=
    deliver_cases hok s root frame <;> unfold DeliverySafe
  · rw [heq] at hnext ⊢
    rw [hpass, htaker]
    constructor
    · intro h
      have hcontained := h frame taken s rfl
      exact ⟨fun _ => ⟨hcontained.rip, hcontained.rsp⟩, fun _ htaken => by cases htaken⟩
    · rintro ⟨hsafe, _⟩ _ _ _ ⟨⟩
      exact ⟨(hsafe rfl).1, (hsafe rfl).2, huser, .inl rfl, hnext.unmasked, hnext.uncaught,
        hkill, .refl root _⟩
  · rw [heq] at hnext ⊢
    rw [hpass, htaker]
    rcases deliverToHandler_cases (s := s) with
      ⟨hready, t, hno⟩ | ⟨hready, hlimit, t, hwrites, hdone⟩
    · rw [hno]
      exact ⟨fun _ => ⟨nofun, fun _ _ hwritable => absurd hwritable hready⟩,
        fun _ _ _ _ hreturn => by cases hreturn⟩
    · rw [hdone] at hnext ⊢
      constructor
      · rintro h
        refine ⟨nofun, ?_⟩
        rintro _ ⟨⟩ _
        exact (h _ _ _ rfl).rip
      · rintro ⟨_, hsafe⟩ _ _ _ ⟨⟩
        exact ⟨hsafe handler rfl hready, hlimit, ⟨huser.code, huser.data, huser.interrupts⟩,
          .inl rfl, hnext.unmasked, hnext.uncaught, hkill, hwrites⟩
  · rw [heq, hpass, htaker]
    exact ⟨fun _ => ⟨nofun, fun _ htaken => by cases htaken⟩,
      fun _ _ _ _ hreturn => by cases hreturn⟩

/-- The flags that `sigreturn` makes. -/
theorem restored_flags (flags : BitVec 64) :
    ((flags &&& RFLAGS_USER_SAFE) ||| RFLAGS_IF ||| RFLAGS_RESERVED_ONE).getLsbD 9 ∧
    ((flags &&& RFLAGS_USER_SAFE) ||| RFLAGS_IF ||| RFLAGS_RESERVED_ONE) &&& ~~~RFLAGS_FROM_USER =
      0 := by
  constructor
  · have hif : RFLAGS_IF.getLsbD 9 := by decide
    rw [getLsbD_or, getLsbD_or, hif, Bool.or_true, Bool.true_or]
  · refine eq_of_getLsbD_eq (fun i _ => ?_)
    unfold RFLAGS_FROM_USER
    simp only [getLsbD_and, getLsbD_or, getLsbD_not, ofNat_eq_ofNat, getLsbD_zero]
    cases RFLAGS_USER_SAFE.getLsbD i <;> cases RFLAGS_IF.getLsbD i <;>
      cases RFLAGS_RESERVED_ONE.getLsbD i <;> simp

theorem sigreturn_contained (hok : σ.Ok) (h : sigreturn s root frame σ = (.returned frame', τ, t)) :
    Contained root s t frame frame' σ τ := by
  have hτ : τ.Ok := by
    have hrun := hok.sigreturn s root frame
    rwa [h] at hrun
  unfold BigOS.Proc.sigreturn at h
  split at h
  · cases h
  rename_i bytes _
  dsimp only at h
  split at h
  · cases h
  split at h
  · cases h
  rename_i hlimits
  simp only [Prod.mk.injEq, SignalOutcome.returned.injEq] at h
  obtain ⟨rfl, rfl, rfl⟩ := h
  rw [or_eq_true, decide_eq_true_eq, decide_eq_true_eq] at hlimits
  have hflags := restored_flags (SignalFrame.ofBytes bytes).rflags
  have hcode : USER_CODE_SELECTOR &&& RPL_MASK = USER_RPL := by decide
  have hdata : USER_DATA_SELECTOR &&& RPL_MASK = USER_RPL := by decide
  exact ⟨by show (SignalFrame.ofBytes bytes).rip.toNat < _; omega,
    by show (SignalFrame.ofBytes bytes).rsp.toNat < _; omega,
    ⟨hcode, hdata, hflags.1⟩, .inr hflags.2, hτ.unmasked, hτ.uncaught, rfl, .refl root _⟩

/-- For every state of signals that a run reaches, every memory and every frame of user
mode, the two returns are contained exactly when the delivery does not return to a
context or a handler of the upper half. -/
theorem returns_contained_iff (ops : List SigOp) (s : System) (root : Nat)
    (frame : InterruptFrame) (huser : frame.OfUser) :
    ((∀ frame' τ t, deliverPendingToUser s root frame (SigState.run ops) =
        (.returned frame', τ, t) → Contained root s t frame frame' (SigState.run ops) τ) ∧
      ∀ frame' τ t, sigreturn s root frame (SigState.run ops) = (.returned frame', τ, t) →
        Contained root s t frame frame' (SigState.run ops) τ) ↔
      DeliverySafe s root frame (SigState.run ops) := by
  have hok := SigState.run_ok ops
  rw [deliver_contained_iff hok huser]
  exact ⟨fun h => h.1, fun h => ⟨h, fun _ _ _ hreturn => sigreturn_contained hok hreturn⟩⟩

/-! ## §9. A process with a handler. -/

/-- Interrupted in the page that `smallRun` has mapped. -/
def smallFrame : InterruptFrame where
  regs := ⟨0, 0, 0, 0, 0, 0, 0, 0, 0, 0, 0, 0, 0, 0, 0⟩
  rsp := 0x1000800#64
  ss := USER_DATA_SELECTOR
  vector := 0x80#64
  errorCode := 0
  rip := 0x1000010#64
  cs := USER_CODE_SELECTOR
  rflags := 0x202#64

theorem smallFrame_ofUser : smallFrame.OfUser := ⟨by decide, by decide, by decide⟩

/-- `SIGUSR1` is pending for a process that has given it a handler. -/
def handlerOps (handler : BitVec 64) : List SigOp :=
  [.sigaction (BitVec.ofInt 64 SIGUSR1) 2 handler, .kill (BitVec.ofInt 64 SIGUSR1)]

theorem returns_contained_small :
    (∀ frame' τ t, deliverPendingToUser (emptySystem.runOps smallRun) 1 smallFrame
        (SigState.run (handlerOps 0x1000100#64)) = (.returned frame', τ, t) →
        Contained 1 (emptySystem.runOps smallRun) t smallFrame frame'
          (SigState.run (handlerOps 0x1000100#64)) τ) ∧
      ∀ frame' τ t, sigreturn (emptySystem.runOps smallRun) 1 smallFrame
        (SigState.run (handlerOps 0x1000100#64)) = (.returned frame', τ, t) →
        Contained 1 (emptySystem.runOps smallRun) t smallFrame frame'
          (SigState.run (handlerOps 0x1000100#64)) τ := by
  refine (returns_contained_iff (handlerOps 0x1000100#64) (emptySystem.runOps smallRun) 1
    smallFrame smallFrame_ofUser).mpr ⟨fun hpass => ?_, fun handler htaker _ => ?_⟩
  · exact absurd hpass (by decide +kernel)
  · have hhandler : (SigState.run (handlerOps 0x1000100#64)).taker = some 0x1000100#64 := by
      decide +kernel
    cases htaker
    decide

/-- A handler of the upper half is one that the process returns to. -/
theorem handler_not_contained : smallFrame.OfUser ∧
      (deliverPendingToUser (emptySystem.runOps smallRun) 1 smallFrame
        (SigState.run (handlerOps 0xffffffff80100000#64))).1 =
          .returned (smallFrame.redirected 0xffffffff80100000#64 0x10006d0#64 10) ∧
      ¬ (smallFrame.redirected 0xffffffff80100000#64 0x10006d0#64 10).rip.toNat <
        USER_LOW_HALF_LIMIT :=
  ⟨smallFrame_ofUser, by decide +kernel, by decide⟩

end BigOS.Proc
