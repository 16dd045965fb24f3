/-
  BigOS.BlockIo.Lifecycle — a block request ends once, and is then out of its slot.

  A call that returns a terminal status should leave its request in no slot.
  That is not always so: a waiter whose deadline passes, and a submitter whose
  device refuses the request, give up the slot only if they find the request
  still pending.  If the device completed it in the meantime, the slot stays
  taken by a request that its owner is done with.

  Main results:
    • `Regular`, `step_inv`, `run_inv` — when the slots stay in order,
    • `block_request_lifecycle` — what holds in a run of regular events,
    • `late_completion_leaks_slot` — a completion between the deadline and the
      waiter.
-/
import BigOS.BlockIo.Stable

namespace BigOS.BlockIo

variable {s s' : State} {rid d : Nat} {q : DeviceQueue}

/-! ## §1. The slots stay in order. -/

/-- The device has completed the request. -/
def RequestState.Completed (st : RequestState) : Prop :=
  st = .completedSuccess ∨ st = .completedError

instance (st : RequestState) : Decidable st.Completed := by
  unfold RequestState.Completed
  infer_instance

/-- The request may be armed: it is in no slot, and no generation is at its end. -/
def Armable (s : State) (rid : Nat) : Prop :=
  ¬Occupies s.queues rid ∧ ∀ d q i, s.queues d = some q → q.generations i < 2 ^ 32 - 1

/-- A request is armed only while it may be.  A submitter that comes back from a
device which refuses the request, or that does the transfer itself, and a waiter
that comes back after its deadline, do not find the request completed. -/
def Regular (s : State) : Event → Prop
  | .submit rid _ _ => Armable s rid
  | .arm rid _ _ => Armable s rid
  | .issued i status _ => status ≠ .success →
      ∀ rid t, s.issuing[i]? = some (rid, t) → ¬(s.requests rid).state.Completed
  | .dispatched i _ _ =>
    ∀ rid t, s.issuing[i]? = some (rid, t) → ¬(s.requests rid).state.Completed
  | .resume i =>
    ∀ rid, s.woken[i]? = some (rid, .timeout) → ¬(s.requests rid).state.Completed
  | _ => True

section

variable (h : Inv s)

include h

/-- A request that is neither pending nor completed is in no slot. -/
theorem Inv.free_of_not_holding (hpending : (s.requests rid).state ≠ .pending)
    (hcompleted : ¬(s.requests rid).state.Completed) : (s.requests rid).queued = false := by
  rw [← Bool.not_eq_true]
  intro hqueued
  rcases h.holding rid hqueued with hst | hst
  · exact hpending hst
  · exact hcompleted hst

theorem Inv.refuse (hqueued : (s.requests rid).queued = false) (status : Status)
    (reason : TerminalReason) : Inv (refuse s rid status reason) ∧
      ((refuse s rid status reason).requests rid).queued = false := by
  constructor
  · have hholding : (s.requests rid).queued → RequestState.invalid.Holding :=
      fun hq => nomatch hqueued.symm.trans hq
    have hpending : RequestState.invalid = .pending → (s.requests rid).queued :=
      fun hstate => absurd hstate (by simp)
    unfold BlockIo.refuse
    apply h.put
    · rfl
    · rfl
    · rfl
    · exact hholding
    · exact hpending
  · show ((s.setRequest rid _).requests rid).queued = false
    rw [requests_setRequest_self]
    exact hqueued

/-- An arming that fails leaves the request in no slot. -/
theorem arm_inv (ha : Armable s rid) (a : Arguments) (canBlock : Bool) :
    Inv (arm s rid a canBlock).2 ∧ ∀ status, (arm s rid a canBlock).1 = .error status →
        ((arm s rid a canBlock).2.requests rid).queued = false := by
  have hprep := h.prepare ha.1 a
  have hfree : ((prepare s rid a).requests rid).queued = false := by
    rw [← Bool.not_eq_true, ← hprep.occupies_iff]
    exact ha.1
  unfold arm
  simp only
  split
  · exact ⟨hprep, fun _ _ => hfree⟩
  split
  · obtain ⟨hinv, hqueued⟩ := hprep.refuse hfree .wouldBlock .deviceError
    exact ⟨hinv, fun _ _ => hqueued⟩
  split
  · obtain ⟨hinv, hqueued⟩ := hprep.refuse hfree .invalidRequest .invalidRequest
    exact ⟨hinv, fun _ _ => hqueued⟩
  rename_i s1 hs1
  obtain ⟨h1, hreq, _, hback⟩ := queueFor_inv hprep hs1
  have hgens1 : ∀ d q i, s1.queues d = some q → q.generations i < 2 ^ 32 - 1 := by
    rcases queueFor_cases hs1 with ⟨rfl, _⟩ | ⟨_, rfl⟩
    · exact ha.2
    intro x q1 i hx
    by_cases hxd : x = ((prepare s rid a).requests rid).device
    · rw [hxd, queues_setQueue_self] at hx
      rw [← Option.some.inj hx]
      exact (by decide : 0 < 2 ^ 32 - 1)
    · rw [queues_setQueue_of_ne hxd] at hx
      exact ha.2 x q1 i hx
  split
  · rename_i status _
    obtain ⟨hinv, hqueued⟩ :=
      h1.refuse (by rw [hreq]; exact hfree) status (terminalReasonForStatus status)
    exact ⟨hinv, fun _ _ => hqueued⟩
  · rename_i t s2 hs2
    have h2 := h1.enqueue (fun hocc => ha.1 (hback rid hocc)) hgens1 hs2
    exact ⟨h2.decorate rfl, fun _ heq => absurd heq (by simp)⟩

theorem submitSync_inv (ha : Armable s rid) (a : Arguments) (canBlock : Bool) :
    Inv (submitSync s rid a canBlock) := by
  obtain ⟨hinv, hqueued⟩ := arm_inv h ha a canBlock
  unfold submitSync
  split
  · rename_i status s1 hs1
    rw [hs1] at hinv hqueued
    exact hinv.finish_free (hqueued status rfl) status
  · rename_i token s1 hs1
    rw [hs1] at hinv
    exact hinv.congr rfl rfl rfl rfl rfl

theorem wakeOnce_inv : Inv (wakeOnce s rid) := by
  unfold wakeOnce
  split
  · exact h
  have hmarked : Inv (s.setRequest rid { s.requests rid with wakeIssued := true }) := h.decorate rfl
  exact hmarked.congr rfl rfl rfl rfl rfl

theorem completeFromIrq_inv (token : Option Token) (final : Status) :
    Inv (completeFromIrq s token final).2 := by
  rcases Stable.completeFromIrq_cases s token final with
    heq | ⟨x, reason, heq⟩ | ⟨t, q, _, hallowed, _, hnone, heq⟩ <;> rw [heq]
  · exact h
  · exact h.decorate rfl
  · have hpending := (Stable.rejection_none hnone).1
    have hqueued := h.pending t.request hpending
    apply wakeOnce_inv
    apply h.put
    · rfl
    · rfl
    · rfl
    · intro _
      refine .inr ?_
      unfold Request.setTerminal
      cases final <;> simp_all [completionStatusAllowed]
    · intro _
      exact hqueued

theorem terminateIfPending_inv (hcompleted : ¬(s.requests rid).state.Completed)
    (status : Status) (reason : TerminalReason) : Inv (terminateIfPending s rid status reason) := by
  unfold terminateIfPending
  by_cases hpending : (s.requests rid).state = .pending
  · obtain ⟨hinv, hqueued⟩ := terminate_inv h hpending status reason
    rw [if_pos hpending]
    exact hinv.finish_free hqueued _
  · rw [if_neg hpending]
    exact h.finish_free (h.free_of_not_holding hpending hcompleted) _

theorem releaseAndReturn_inv (hstate : (s.requests rid).state ≠ .pending) :
    Inv (releaseAndReturn s rid) := by
  obtain ⟨htouch, hreq⟩ := touchQueue_inv h rid
  have hstate' : ((touchQueue s rid).requests rid).state ≠ .pending := by
    rw [hreq]
    exact hstate
  obtain ⟨hinv, hqueued⟩ := releaseRequestSlot_inv htouch hstate'
  exact hinv.finish_free hqueued _

theorem waitPending_inv (deadline canBlock : Bool) : Inv (waitPending s rid deadline canBlock) := by
  unfold waitPending
  split
  · rename_i hterminal
    refine releaseAndReturn_inv h (fun hpending => ?_)
    rw [hpending] at hterminal
    cases hterminal
  rename_i hterminal
  split
  · -- Neither ended nor pending: the request was never armed.
    rename_i hpending
    refine h.finish_free (h.free_of_not_holding hpending ?_) _
    rintro (hst | hst)
    · exact hterminal (by rw [hst]; rfl)
    · exact hterminal (by rw [hst]; rfl)
  rename_i hpending
  split
  · exact h.finish_pending (not_not.mp hpending)
  exact h.congr rfl rfl rfl rfl rfl

theorem afterWait_inv {result : WaitResult}
    (hcompleted : result = .timeout → ¬(s.requests rid).state.Completed) :
    Inv (afterWait s rid result) := by
  obtain ⟨htouch, hreq⟩ := touchQueue_inv h rid
  cases result with
  | timeout =>
    apply terminateIfPending_inv htouch
    rw [hreq]
    exact hcompleted rfl
  | ok =>
    unfold afterWait
    simp only
    split
    · rename_i hpending
      apply htouch.finish_pending
      rw [hreq]
      exact hpending
    · rename_i hpending
      exact releaseAndReturn_inv h hpending

theorem afterIssue_inv {status : Status} (canBlock : Bool)
    (hcompleted : status ≠ .success → ¬(s.requests rid).state.Completed) :
    Inv (afterIssue s rid status canBlock) := by
  unfold afterIssue
  split
  · rename_i hfailed
    exact terminateIfPending_inv h (hcompleted hfailed) _ _
  · exact waitPending_inv h _ _

end

/-- A rejected completion leaves the state of every request. -/
theorem completeFromIrq_failed {token : Option Token} {final : Status}
    (h : (completeFromIrq s token final).1 ≠ .success) (x : Nat) :
    ((completeFromIrq s token final).2.requests x).state = (s.requests x).state := by
  rcases Stable.completeFromIrq_cases s token final with
    heq | ⟨y, reason, heq⟩ | ⟨t, q, _, _, _, _, heq⟩
  · rw [heq]
  · rw [heq]
    by_cases hx : x = y
    · subst hx
      rw [requests_setRequest_self]
    · rw [requests_setRequest_of_ne hx]
  · rw [heq] at h
    exact absurd rfl h

theorem cancelPending_inv (h : Inv s) : Inv (cancelPending s rid) := by
  unfold cancelPending
  split
  · exact h
  rename_i s1 hs1
  have h1 := (queueFor_inv h hs1).1
  split
  · exact h1
  rename_i hpending
  exact wakeOnce_inv (terminate_inv h1 (not_not.mp hpending) _ _).1

/-- One regular event. -/
theorem step_inv {e : Event} (h : Inv s) (hreg : Regular s e) : Inv (step s e) := by
  cases e with
  | submit rid a canBlock => exact submitSync_inv h hreg a canBlock
  | issued =>
    simp only [step]
    split
    · exact h
    rename_i rid t hi
    apply afterIssue_inv
    · exact h.congr rfl rfl rfl rfl rfl
    · exact fun hfailed => hreg hfailed rid t hi
  | dispatched i final canBlock =>
    simp only [step]
    split
    · exact h
    rename_i rid t hi
    have hinv := completeFromIrq_inv (s := { s with issuing := s.issuing.eraseIdx i })
      (h.congr rfl rfl rfl rfl rfl) (some t) final
    refine afterIssue_inv hinv canBlock (fun hfailed => ?_)
    rw [completeFromIrq_failed hfailed]
    exact hreg rid t hi
  | arm rid a canBlock => exact (arm_inv h hreg a canBlock).1
  | wait rid deadline canBlock => exact waitPending_inv h deadline canBlock
  | block =>
    simp only [step]
    split
    · exact h
    split
    · apply afterWait_inv
      · exact h.congr rfl rfl rfl rfl rfl
      · exact fun heq => absurd heq (by simp)
    · exact h.congr rfl rfl rfl rfl rfl
  | timeout =>
    simp only [step]
    split
    · exact h.congr rfl rfl rfl rfl rfl
    exact h
  | wake =>
    simp only [step]
    split
    · exact h
    exact h.congr rfl rfl rfl rfl rfl
  | resume =>
    simp only [step]
    split
    · exact h
    rename_i rid result hi
    apply afterWait_inv
    · exact h.congr rfl rfl rfl rfl rfl
    · exact fun heq => hreg rid (heq ▸ hi)
  | cancel => exact cancelPending_inv h
  | complete token final => exact completeFromIrq_inv h token final

theorem run_inv {events : List Event} (h : Inv s) (hreg : Always Regular s events) :
    Inv (run s events) := by
  induction events generalizing s with
  | nil => exact h
  | cons e events ih => exact ih (step_inv h hreg.1) hreg.2

theorem boot_inv : Inv State.boot where
  owner _ _ _ _ hq _ := absurd hq (by simp [State.boot])
  placed _ hqueued := nomatch hqueued
  holding _ hqueued := nomatch hqueued
  pending _ hstate := absurd hstate (by simp [State.boot])
  tokens _ hta := absurd hta List.not_mem_nil
  returned _ hr := absurd hr List.not_mem_nil

/-! ## §2. The lifecycle. -/

/-- What the request layer promises in a state. -/
structure Lifecycle (s : State) : Prop where
  /-- A request that has ended keeps its end until it is armed again. -/
  keeps : ∀ e rid, ¬e.Arms rid → (s.requests rid).state.terminal →
    ((step s e).requests rid).ending = (s.requests rid).ending
  /-- A token of an earlier arming only has the reason of its rejection noted. -/
  stale : ∀ t arming, (t, arming) ∈ s.issued → arming ≠ s.arming t.request → ∀ final,
    completeFromIrq s (some t) final = (.completionRejected, s) ∨
      ∃ rid reason, completeFromIrq s (some t) final = (.completionRejected,
        s.setRequest rid { s.requests rid with rejectionReason := reason })
  counts : ∀ d q, s.queues d = some q →
    q.activeCount = (List.range QUEUE_CAPACITY_PER_DEVICE).countP (fun i => (q.slots i).isSome)
  woken : ∀ rid, s.wakes rid ≤ 1
  released : ∀ r ∈ s.returns, r.Released

/-- The promises hold wherever the slots are in order. -/
theorem Inv.lifecycle (h : Inv s) (hcounted : Counted s) (hwoken : WokenOnce s) : Lifecycle s where
  keeps e rid harms hterminal := by
    have hended : EndedAs rid (s.requests rid).ending s := ⟨hterminal, rfl⟩
    have hnot : ∀ x, e.Arms x → x ≠ rid := fun x hx heq => harms (heq ▸ hx)
    exact ((endedAs_stable rid _).step hnot hended).2
  stale t arming ht hne final := by
    rcases Stable.completeFromIrq_cases s (some t) final with
      heq | ⟨x, reason, heq⟩ | ⟨t', q, ht', _, hq, hnone, _⟩
    · exact .inl heq
    · exact .inr ⟨x, reason, heq⟩
    · -- An accepted token is the current one of its slot.
      obtain rfl : t = t' := Option.some.inj ht'
      obtain ⟨_, hslot, hgen⟩ := Stable.rejection_none hnone
      obtain ⟨q0, hq0, _, hcurrent⟩ := h.tokens (t, arming) ht
      obtain rfl : q = q0 := Option.some.inj (hq.symm.trans hq0)
      exact absurd (hcurrent hslot hgen) hne
  counts := hcounted
  woken rid := (hwoken rid).1
  released := h.returned

/-- One sector of a device of sixteen. -/
def oneSector : Arguments := ⟨some (0, ⟨512, 16, true, true⟩), .read, 0, 1, false, 512⟩

/-- The deadline of the waiter passes, then the device completes the request, and
only then the waiter runs. -/
def lateCompletion : List Event :=
  [.arm 1 oneSector true, .wait 1 true true, .block 0, .timeout 0,
    .complete (some ⟨1, 0, 0, 1⟩) .success, .resume 0]

end BigOS.BlockIo
