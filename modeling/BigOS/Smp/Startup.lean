/-
  BigOS.Smp.Startup — how the application processors are started.

  The bootstrap processor starts the others one by one through a single mailbox: it
  writes the id and the stack of the next one there, sends the startup IPI and waits for
  the acknowledgement, up to a deadline.  A processor that arrives later finds what was
  written for another one.

  Main results:
    • `step_inv`, `run_inv` — in a timely run a processor has what was meant for it,
    • `startup_no_alias` — no two processors share an id or a stack, and the slots say
      who has acknowledged,
    • `late_processor_aliases` — a processor that arrives after its deadline.
-/
import Mathlib.Logic.Function.Basic

namespace BigOS.Smp

open Function

/-! ## §1. The processors and the mailbox. -/

def MAX_CPUS : Nat := 8

inductive CpuStartupState where
  | empty | offline | online | failed
  deriving DecidableEq

inductive AckState where
  | unstarted | online | invalidCpu
  deriving DecidableEq

/-- What the processors read of the `StartupMailbox`; its magic, version and size are right
once it is prepared. -/
structure StartupMailbox where
  cpuId : Nat
  apicId : Nat
  apStackTop : Nat

/-- How far a processor has come, with the stack and the id it runs with. -/
inductive Progress where
  | reset
  | started
  | loaded (stack : Nat)
  | bound (cpu stack : Nat)
  | acked (cpu stack : Nat)
  | parked (cpu : Option Nat) (stack : Nat)

def Progress.cpu : Progress → Option Nat
  | .bound cpu _ | .acked cpu _ => some cpu
  | .parked cpu _ => cpu
  | _ => none

def Progress.stack : Progress → Option Nat
  | .loaded stack | .bound _ stack | .acked _ stack | .parked _ stack => some stack
  | _ => none

/-- A `CpuSlot` and the processor with its APIC id, which no other slot has. -/
structure Cpu where
  apicId : Nat
  startupState : CpuStartupState
  progress : Progress

/-- The slots, the mailbox with its `ack_state`, the slot at which the loop of
`start_application_processors` is and whether it waits there, and the stacks in use with
the slots they were allocated for. -/
structure State where
  discovered : Nat
  cpus : Nat → Cpu
  mailbox : StartupMailbox
  ackState : AckState
  id : Nat
  waiting : Bool
  inUse : Nat → Option Nat

namespace State

variable (s : State)

/-- `mark_cpu_online` and `mark_cpu_failed` on a slot that is not empty. -/
def mark (id : Nat) (state : CpuStartupState) : State :=
  { s with cpus := update s.cpus id { s.cpus id with startupState := state } }

/-- The processor of the slot `i` goes on. -/
def advance (i : Nat) (p : Progress) : State :=
  { s with cpus := update s.cpus i { s.cpus i with progress := p } }

/-- The loop goes on with the next slot. -/
def next : State := { s with id := s.id + 1, waiting := false }

/-! ## §2. The bootstrap processor. -/

/-- One round of `start_application_processors` up to the wait.  `stack` is what
`alloc_kernel_pages` returns, never one in use; INIT resets the processor. -/
def start (stack : Option Nat) (initSent sipiSent : Bool) : State :=
  if s.waiting ∨ s.discovered ≤ s.id then s
  else if (s.cpus s.id).startupState ≠ .offline then s.next
  else
    match stack with
    | none => (s.mark s.id .failed).next
    | some top =>
      if (s.inUse top).isSome then s
      else
        let s := { s with mailbox := ⟨s.id, (s.cpus s.id).apicId, top⟩, ackState := .unstarted }
        if !initSent then (s.mark s.id .failed).next
        else if !sipiSent then ((s.advance s.id .reset).mark s.id .failed).next
        else
          { s.advance s.id .started with
            inUse := update s.inUse top (some s.id), waiting := true }

/-- A turn of the loop of `wait_for_online_ack`. -/
def poll : State :=
  if s.waiting ∧ (s.ackState = .online ∧ (s.cpus s.id).startupState = .online ∨
      s.ackState = .invalidCpu) then s.next
  else s

/-- The end of `wait_for_online_ack`. -/
def timeout : State := if s.waiting then (s.mark s.id .failed).next else s

/-! ## §3. The application processors. -/

/-- The trampoline: the stack is the one in the mailbox. -/
def load (i : Nat) : State :=
  match (s.cpus i).progress with
  | .started => s.advance i (.loaded s.mailbox.apStackTop)
  | _ => s

/-- `bigos_x86_ap_kernel_entry` up to `mark_cpu_online`. -/
def bind (i : Nat) : State :=
  match (s.cpus i).progress with
  | .loaded stack =>
    let cpu := s.mailbox.cpuId
    if cpu < MAX_CPUS ∧ (s.cpus cpu).startupState ≠ .empty ∧
        (s.cpus cpu).apicId = s.mailbox.apicId then
      (s.mark cpu .online).advance i (.bound cpu stack)
    else { s.advance i (.parked none stack) with ackState := .invalidCpu }
  | _ => s

/-- The rest of it: the local timer, for which the slot has to be online, and the domain
of the scheduler. -/
def finish (i : Nat) (timer domain : Bool) : State :=
  match (s.cpus i).progress with
  | .bound cpu stack =>
    if !timer ∨ (s.cpus cpu).startupState ≠ .online then
      { (s.mark cpu .failed).advance i (.parked cpu stack) with ackState := .invalidCpu }
    else if !domain then { s.advance i (.parked cpu stack) with ackState := .invalidCpu }
    else { s.advance i (.acked cpu stack) with ackState := .online }
  | _ => s

/-- The bootstrap processor waits at the slot `i`. -/
def Awaits (i : Nat) : Prop := s.waiting ∧ s.id = i

end State

inductive Event where
  | start (stack : Option Nat) (initSent sipiSent : Bool)
  | poll
  | timeout
  | load (i : Nat)
  | bind (i : Nat)
  | finish (i : Nat) (timer domain : Bool)

def step (s : State) : Event → State
  | .start stack initSent sipiSent => s.start stack initSent sipiSent
  | .poll => s.poll
  | .timeout => s.timeout
  | .load i => s.load i
  | .bind i => s.bind i
  | .finish i timer domain => s.finish i timer domain

def run (s : State) (events : List Event) : State := events.foldl step s

/-- The bootstrap processor runs in slot 0 on stack 0, the others are discovered. -/
def boot (discovered : Nat) (apicId : Nat → Nat) : State where
  discovered := discovered
  cpus i :=
    if i = 0 then ⟨apicId i, .online, .acked 0 0⟩
    else ⟨apicId i, if i < discovered then .offline else .empty, .reset⟩
  mailbox := ⟨0xffffffff, 0xffffffff, 0⟩
  ackState := .unstarted
  id := 1
  waiting := false
  inUse := update (fun _ => none) 0 (some 0)

/-! ## §4. Timely runs. -/

/-- A processor runs only while it is waited for, one that misses its deadline has not
arrived or has given up, and the domain of its scheduler can be set up. -/
def Timely (s : State) : Event → Prop
  | .timeout => (s.cpus s.id).progress.stack = none ∨
      ∃ cpu stack, (s.cpus s.id).progress = .parked cpu stack
  | .load i | .bind i => s.Awaits i
  | .finish i _ domain => s.Awaits i ∧ domain
  | _ => True

def TimelyRun : State → List Event → Prop
  | _, [] => True
  | s, e :: events => Timely s e ∧ TimelyRun (step s e) events

/-- What holds of a slot, by how far its processor has come: the id and the stack are its
own, and it is online from `mark_cpu_online` on unless the processor gives up. -/
def SlotOk (s : State) (i : Nat) : Prop :=
  match (s.cpus i).progress with
  | .reset | .started =>
    (s.cpus i).startupState ≠ .online ∧ (s.Awaits i → s.ackState = .unstarted)
  | .loaded stack =>
    (s.cpus i).startupState ≠ .online ∧ (s.Awaits i → s.ackState = .unstarted) ∧
      s.inUse stack = some i
  | .bound cpu stack =>
    (s.cpus i).startupState = .online ∧ s.Awaits i ∧ s.ackState = .unstarted ∧ cpu = i ∧
      s.inUse stack = some i
  | .acked cpu stack =>
    (s.cpus i).startupState = .online ∧ cpu = i ∧ s.inUse stack = some i
  | .parked cpu stack =>
    (s.cpus i).startupState ≠ .online ∧ (∀ c, cpu = some c → c = i) ∧ s.inUse stack = some i

/-- What is in the mailbox is meant for the processor that is waited for. -/
structure Inv (s : State) : Prop where
  slots : ∀ i, SlotOk s i
  mailed : s.waiting → s.mailbox.cpuId = s.id ∧ s.inUse s.mailbox.apStackTop = some s.id

variable {s s' : State} {i : Nat}

/-- An event changes no slot but the one that the loop is at. -/
theorem Inv.change (h : Inv s) (hcpus : ∀ i, i ≠ s.id → s'.cpus i = s.cpus i)
    (hstacks : ∀ top i, s.inUse top = some i → s'.inUse top = some i)
    (hid : s'.waiting → s'.id = s.id) (hslot : SlotOk s' s.id) (hmail : s'.waiting →
      s'.mailbox.cpuId = s'.id ∧ s'.inUse s'.mailbox.apStackTop = some s'.id) : Inv s' := by
  refine ⟨fun i => ?_, hmail⟩
  by_cases heq : i = s.id
  · rw [heq]
    exact hslot
  -- Nobody waits at another slot, neither before nor after.
  have hbefore : ¬s.Awaits i := fun hw => heq hw.2.symm
  have hafter : ¬s'.Awaits i := fun hw => heq (hw.2.symm.trans (hid hw.1))
  have hi := h.slots i
  unfold SlotOk at hi ⊢
  rw [hcpus i heq]
  cases hp : (s.cpus i).progress <;> simp_all

/-- The loop leaves a slot whose processor is not bound. -/
theorem Inv.next (h : Inv s) (hp : ∀ cpu stack, (s.cpus s.id).progress ≠ .bound cpu stack) :
    Inv s.next := by
  refine h.change (fun _ _ => rfl) (fun _ _ h => h) nofun ?_ nofun
  have hslot := h.slots s.id
  unfold SlotOk at hslot ⊢
  cases hc : (s.cpus s.id).progress <;> simp_all [State.next, State.Awaits]

theorem Inv.mark_failed (h : Inv s) (hp : (s.cpus s.id).startupState ≠ .online) :
    Inv (s.mark s.id .failed) := by
  refine h.change (fun _ h => update_of_ne h ..) (fun _ _ h => h) (fun _ => rfl) ?_ h.mailed
  have hslot := h.slots s.id
  unfold SlotOk at hslot ⊢
  cases hc : (s.cpus s.id).progress <;> simp_all [State.mark, State.Awaits]

section Events

variable (h : Inv s)

include h

theorem start_inv (stack : Option Nat) (initSent sipiSent : Bool) :
    Inv (s.start stack initSent sipiSent) := by
  unfold State.start
  split
  · exact h
  rename_i hc
  have hwait : s.waiting = false := by simpa using (not_or.mp hc).1
  have hslot := h.slots s.id
  have hp : ∀ cpu stack, (s.cpus s.id).progress ≠ .bound cpu stack := by
    intro cpu stack hp
    simp [SlotOk, hp, State.Awaits, hwait] at hslot
  split
  · exact h.next hp
  rename_i hoffline
  have hoff : (s.cpus s.id).startupState ≠ .online := by simp_all
  split
  · exact (h.mark_failed hoff).next (by simpa [State.mark] using hp)
  rename_i top
  split
  · exact h
  rename_i hfree
  -- Nobody is waited for, so that the mailbox can be written.
  have hprep (apic : Nat) :
      Inv { s with mailbox := ⟨s.id, apic, top⟩, ackState := .unstarted } := by
    refine ⟨fun i => ?_, fun hw => nomatch hwait.symm.trans hw⟩
    have hi := h.slots i
    unfold SlotOk at hi ⊢
    cases hc : (s.cpus i).progress <;> simp_all [State.Awaits]
  dsimp only
  split
  · exact ((hprep _).mark_failed hoff).next (by simpa [State.mark] using hp)
  split
  · refine Inv.next (Inv.mark_failed ((hprep (s.cpus s.id).apicId).change
      (fun _ h => update_of_ne h ..) (fun _ _ h => h) (fun _ => rfl) ?_
      (fun hw => nomatch hwait.symm.trans hw)) ?_) ?_ <;>
      simp [SlotOk, State.mark, State.advance, hoff]
  · refine h.change (fun _ h => update_of_ne h ..) (fun t i ht => ?_) (fun _ => rfl) ?_
      (fun _ => ⟨rfl, update_self ..⟩)
    · refine (update_of_ne ?_ ..).trans ht
      rintro rfl
      simp [ht] at hfree
    · simp [SlotOk, State.advance, hoff]

theorem poll_inv : Inv s.poll := by
  unfold State.poll
  split
  · rename_i hc
    refine h.next fun cpu stack hp => ?_
    -- A bound processor has not acknowledged yet.
    have hslot := h.slots s.id
    simp_all [SlotOk]
  · exact h

theorem timeout_inv (ht : Timely s .timeout) : Inv s.timeout := by
  unfold State.timeout
  split
  · have hslot := h.slots s.id
    unfold SlotOk at hslot
    refine (h.mark_failed ?_).next fun cpu stack => ?_ <;>
      rcases hp : (s.cpus s.id).progress <;> simp_all [Timely, Progress.stack, State.mark]
  · exact h

theorem load_inv (ha : s.Awaits i) : Inv (s.load i) := by
  obtain ⟨hwait, rfl⟩ := ha
  have hslot := h.slots s.id
  unfold State.load
  split
  · rename_i hp
    refine h.change (fun _ h => update_of_ne h ..) (fun _ _ h => h) (fun _ => rfl) ?_ h.mailed
    have hmail := h.mailed hwait
    simp_all [SlotOk, State.advance, State.Awaits]
  · exact h

theorem bind_inv (ha : s.Awaits i) : Inv (s.bind i) := by
  obtain ⟨hwait, rfl⟩ := ha
  have hslot := h.slots s.id
  have hmail := h.mailed hwait
  unfold State.bind
  split
  · rename_i hp
    dsimp only
    rw [hmail.1]
    split <;>
      refine h.change (fun _ h => by simp [State.mark, State.advance, h]) (fun _ _ h => h)
        (fun _ => rfl) ?_ h.mailed <;>
      simp_all [SlotOk, State.mark, State.advance, State.Awaits]
  · exact h

theorem finish_inv {timer : Bool} (ha : s.Awaits i) : Inv (s.finish i timer true) := by
  obtain ⟨hwait, rfl⟩ := ha
  have hslot := h.slots s.id
  unfold State.finish
  split
  · rename_i cpu stack hp
    obtain rfl : cpu = s.id := by simp_all [SlotOk]
    simp only [Bool.not_true, Bool.false_eq_true, if_false]
    split <;>
      refine h.change (fun _ h => by simp [State.mark, State.advance, h]) (fun _ _ h => h)
        (fun _ => rfl) ?_ h.mailed <;>
      simp_all [SlotOk, State.mark, State.advance, State.Awaits]
  · exact h

end Events

theorem step_inv (h : Inv s) {e : Event} (he : Timely s e) : Inv (step s e) := by
  cases e with
  | start stack initSent sipiSent => exact start_inv h stack initSent sipiSent
  | poll => exact poll_inv h
  | timeout => exact timeout_inv h he
  | load => exact load_inv h he
  | bind => exact bind_inv h he
  | finish =>
    obtain ⟨ha, rfl⟩ := he
    exact finish_inv h ha

theorem run_inv (h : Inv s) {events : List Event} (he : TimelyRun s events) :
    Inv (run s events) := by
  induction events generalizing s with
  | nil => exact h
  | cons e events ih => exact ih (step_inv h he.1) he.2

theorem boot_inv (discovered : Nat) (apicId : Nat → Nat) : Inv (boot discovered apicId) := by
  refine ⟨fun i => ?_, nofun⟩
  by_cases hi : i = 0
  · simp [SlotOk, boot, hi]
  · by_cases hlt : i < discovered <;> simp [SlotOk, boot, hi, hlt, State.Awaits]

/-- In a timely run no two processors have the same id or the same stack, and once the
bootstrap processor waits for none, a slot is online if and only if its processor has
acknowledged with the id of the slot. -/
theorem startup_no_alias (discovered : Nat) (apicId : Nat → Nat) (events : List Event)
    (htimely : TimelyRun (boot discovered apicId) events) :
    let s := run (boot discovered apicId) events
    (∀ i j c, (s.cpus i).progress.cpu = some c → (s.cpus j).progress.cpu = some c → i = j) ∧
    (∀ i j top, (s.cpus i).progress.stack = some top → (s.cpus j).progress.stack = some top →
      i = j) ∧ (s.waiting = false → ∀ i, (s.cpus i).startupState = .online ↔
      ∃ top, (s.cpus i).progress = .acked i top) := by
  intro s
  have h : Inv s := run_inv (boot_inv discovered apicId) htimely
  have hslot (i : Nat) : (∀ c, (s.cpus i).progress.cpu = some c → c = i) ∧
      (∀ top, (s.cpus i).progress.stack = some top → s.inUse top = some i) ∧
      (s.waiting = false → ((s.cpus i).startupState = .online ↔
        ∃ top, (s.cpus i).progress = .acked i top)) := by
    have hi := h.slots i
    unfold SlotOk at hi
    cases hp : (s.cpus i).progress <;> simp_all [Progress.cpu, Progress.stack, State.Awaits]
  refine ⟨fun i j c hi hj => ((hslot i).1 c hi).symm.trans ((hslot j).1 c hj), ?_,
    fun hwait i => (hslot i).2.2 hwait⟩
  intro i j top hi hj
  exact Option.some.inj (((hslot i).2.1 top hi).symm.trans ((hslot j).2.1 top hj))

/-- The first processor does not arrive, the second comes up in its own slot. -/
theorem startup_no_alias_two :
    let s := run (boot 3 id) [.start (some 1) true true, .timeout, .start (some 2) true true,
      .load 2, .bind 2, .finish 2 true true]
    (s.cpus 1).startupState = .failed ∧ (s.cpus 2).progress = .acked 2 2 ∧
    ∀ i j c, (s.cpus i).progress.cpu = some c → (s.cpus j).progress.cpu = some c → i = j := by
  refine ⟨rfl, rfl, (startup_no_alias 3 id _ ?_).1⟩
  exact ⟨trivial, .inl rfl, trivial, ⟨rfl, rfl⟩, ⟨rfl, rfl⟩, ⟨⟨rfl, rfl⟩, rfl⟩, trivial⟩

/-- The first processor arrives after its deadline, when the mailbox is the second's:
both run as the processor 2 on one stack. -/
theorem late_processor_aliases :
    let s := run (boot 3 id) [.start (some 1) true true, .timeout, .start (some 2) true true,
      .load 1, .bind 1, .load 2, .bind 2]
    (s.cpus 1).progress = .bound 2 2 ∧ (s.cpus 2).progress = .bound 2 2 :=
  ⟨rfl, rfl⟩

end BigOS.Smp
