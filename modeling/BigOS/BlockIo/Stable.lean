/-
  BigOS.BlockIo.Stable — what holds in every run of the request layer.

  The stretches of `Model.lean` are made of a few elementary changes; a property
  that survives these survives every event.  Three do: a request that has ended
  keeps its end until it is armed again, a queue counts its occupied slots, and a
  request is woken at most once per arming.

  Main results:
    • `Stable.step`, `Stable.run` — the rule,
    • `completeFromIrq_cases`, `releaseRequestSlot_cases` — what these two do,
    • `endedAs_stable`, `counted_stable`, `wokenOnce_stable` — the three properties.
-/
import BigOS.BlockIo.Slots

namespace BigOS.BlockIo

open BigOS.Lib.Slots Function

variable {s s' : State} {rid d : Nat} {q : DeviceQueue}

/-! ## §1. Invariants of the elementary changes. -/

/-- The states differ at most in their threads and what was returned. -/
structure Same (s s' : State) : Prop where
  requests : s'.requests = s.requests
  queues : s'.queues = s.queues
  wakes : s'.wakes = s.wakes

/-- The event arms the request. -/
def Event.Arms (e : Event) (rid : Nat) : Prop :=
  match e with
  | .submit x _ _ => x = rid
  | .arm x _ _ => x = rid
  | _ => False

/-- The property survives every elementary change, of which those that arm a
request happen to requests in `A` only. -/
structure Stable (P : State → Prop) (A : Nat → Prop) : Prop where
  same : ∀ s s', Same s s' → P s → P s'
  newQueue : ∀ s d, s.queues d = none → P s → P (s.setQueue d DeviceQueue.empty)
  prepare : ∀ s rid a, A rid → P s → P (prepare s rid a)
  refuse : ∀ s rid status reason, A rid → P s → P (refuse s rid status reason)
  enqueue : ∀ s rid t s', A rid → enqueueRequest s rid = .ok (t, s') → P s →
    P (s'.setRequest rid { s'.requests rid with status := .wouldBlock })
  reject : ∀ s rid reason, P s →
    P (s.setRequest rid { s.requests rid with rejectionReason := reason })
  settle : ∀ s rid status reason, (s.requests rid).state = .pending → P s →
    P (s.setRequest rid ((s.requests rid).setTerminal status reason))
  wake : ∀ s rid, P s → P (wakeOnce s rid)
  release : ∀ s rid, P s → P (releaseRequestSlot s rid)

namespace Stable

variable {P : State → Prop} {A : Nat → Prop} {r : Request} {slot : Nat}

section

variable (h : Stable P A)

include h

theorem queueFor (hP : P s) (hs : queueFor s d = some s') : P s' := by
  rcases queueFor_cases hs with ⟨rfl, _⟩ | ⟨hnone, rfl⟩
  · exact hP
  · exact h.same (s.setQueue d DeviceQueue.empty) _ ⟨rfl, rfl, rfl⟩ (h.newQueue s d hnone hP)

theorem touchQueue (hP : P s) : P (touchQueue s rid) := by
  unfold BlockIo.touchQueue
  cases hs : BlockIo.queueFor s (s.requests rid).device with
  | none => exact hP
  | some => exact h.queueFor hP hs

theorem finish (hP : P s) (status : Status) : P (s.finish rid status) :=
  h.same s _ ⟨rfl, rfl, rfl⟩ hP

theorem arm (hA : A rid) (hP : P s) (a : Arguments) (canBlock : Bool) :
    P (arm s rid a canBlock).2 := by
  have hprep := h.prepare s rid a hA hP
  unfold BlockIo.arm
  simp only
  split
  · exact hprep
  split
  · exact h.refuse _ rid _ _ hA hprep
  split
  case h_1 => exact h.refuse _ rid _ _ hA hprep
  case h_2 s1 hs1 =>
    have h1 := h.queueFor hprep hs1
    split
    case h_1 => exact h.refuse _ rid _ _ hA h1
    case h_2 t s2 hs2 => exact h.enqueue s1 rid t s2 hA hs2 h1

theorem submitSync (hA : A rid) (hP : P s) (a : Arguments) (canBlock : Bool) :
    P (submitSync s rid a canBlock) := by
  have harm := h.arm hA hP a canBlock
  unfold BlockIo.submitSync
  split
  case h_1 status s1 hs1 =>
    rw [hs1] at harm
    exact h.finish harm status
  case h_2 token s1 hs1 =>
    rw [hs1] at harm
    exact h.same s1 _ ⟨rfl, rfl, rfl⟩ harm

end

theorem rejection_none {t : Token} (h : rejection s q t = .none) :
    (s.requests t.request).state = .pending ∧ q.slots t.queueSlot = some t.request ∧
      q.generations t.queueSlot = t.generation := by
  unfold rejection at h
  split at h
  · cases h
  cases hslot : q.slots t.queueSlot with
  | none =>
    simp only [hslot] at h
    split at h <;> exact absurd h (by simp)
  | some =>
    simp only [hslot] at h
    split at h
    · split at h <;> exact absurd h (by simp)
    rename_i hx
    split at h
    · cases h
    split at h
    · cases h
    rename_i hgen
    split at h
    · cases h
    · split at h
      · split at h <;> exact absurd h (by simp)
      · rename_i hstate
        exact ⟨not_not.mp hstate, by rw [not_not.mp hx], not_not.mp hgen⟩

/-- What a completion does. -/
theorem completeFromIrq_cases (s : State) (token : Option Token) (final : Status) :
    (completeFromIrq s token final = (.completionRejected, s)) ∨
      (∃ t reason, completeFromIrq s token final = (.completionRejected,
        s.setRequest t { s.requests t with rejectionReason := reason })) ∨
      (∃ t q, token = some t ∧ completionStatusAllowed final ∧
        s.queues t.device = some q ∧ rejection s q t = .none ∧
        completeFromIrq s token final = (.success, wakeOnce (s.setRequest t.request
          ((s.requests t.request).setTerminal final (terminalReasonForStatus final)))
          t.request)) := by
  unfold completeFromIrq
  cases token with
  | none => exact .inl rfl
  | some t =>
    cases hallowed : completionStatusAllowed final with
    | false => exact .inl rfl
    | true =>
      cases hq : s.queues t.device with
      | none => exact .inl (by simp [hq])
      | some q =>
        by_cases hreason : rejection s q t = .none
        · refine .inr (.inr ⟨t, q, rfl, rfl, hq, hreason, ?_⟩)
          simp [hq, hreason]
        · refine .inr (.inl ⟨t.request, rejection s q t, ?_⟩)
          simp [hq, hreason]

section

variable (h : Stable P A) (hP : P s) {ending : RequestState × Status × TerminalReason}

include h hP

theorem completeFromIrq (token : Option Token) (final : Status) :
    P (completeFromIrq s token final).2 := by
  rcases completeFromIrq_cases s token final with
    heq | ⟨x, reason, heq⟩ | ⟨t, q, _, _, _, hnone, heq⟩ <;> rw [heq]
  · exact hP
  · exact h.reject s x reason hP
  · exact h.wake _ _ (h.settle s _ _ _ (rejection_none hnone).1 hP)

theorem terminate (hpending : (s.requests rid).state = .pending) (status : Status)
    (reason : TerminalReason) : P (terminate s rid status reason) :=
  h.release _ rid (h.settle s rid status reason hpending hP)

theorem cancelPending : P (cancelPending s rid) := by
  unfold BlockIo.cancelPending
  split
  · exact hP
  rename_i s1 hs1
  have h1 := h.queueFor hP hs1
  split
  · exact h1
  rename_i hpending
  exact h.wake _ rid (h.terminate h1 (not_not.mp hpending) _ _)

theorem releaseAndReturn : P (releaseAndReturn s rid) :=
  h.finish (h.release _ rid (h.touchQueue hP)) _

theorem waitPending (deadline canBlock : Bool) : P (waitPending s rid deadline canBlock) := by
  unfold BlockIo.waitPending
  split
  · exact h.releaseAndReturn hP
  split
  · exact h.finish hP _
  split
  · exact h.finish hP _
  exact h.same s _ ⟨rfl, rfl, rfl⟩ hP

theorem terminateIfPending (status : Status) (reason : TerminalReason) :
    P (terminateIfPending s rid status reason) := by
  unfold BlockIo.terminateIfPending
  split
  · rename_i hpending
    exact h.finish (h.terminate hP hpending status reason) _
  · exact h.finish hP _

theorem afterWait (result : WaitResult) : P (afterWait s rid result) := by
  cases result with
  | timeout => exact h.terminateIfPending (h.touchQueue hP) _ _
  | ok =>
    unfold BlockIo.afterWait
    simp only
    split
    · exact h.finish (h.touchQueue hP) _
    exact h.releaseAndReturn hP

theorem afterIssue (status : Status) (canBlock : Bool) : P (afterIssue s rid status canBlock) := by
  unfold BlockIo.afterIssue
  split
  · exact h.terminateIfPending hP _ _
  exact h.waitPending hP _ _

end

/-- One event, whatever threads are inside the code. -/
theorem step (h : Stable P A) {e : Event} (hA : ∀ rid, e.Arms rid → A rid) (hP : P s) :
    P (step s e) := by
  cases e with
  | submit rid a canBlock => exact h.submitSync (hA rid rfl) hP a canBlock
  | issued =>
    simp only [BlockIo.step]
    split
    · exact hP
    apply h.afterIssue
    exact h.same s _ ⟨rfl, rfl, rfl⟩ hP
  | dispatched =>
    simp only [BlockIo.step]
    split
    · exact hP
    apply h.afterIssue
    apply h.completeFromIrq
    exact h.same s _ ⟨rfl, rfl, rfl⟩ hP
  | arm rid a canBlock => exact h.arm (hA rid rfl) hP a canBlock
  | wait => exact h.waitPending hP _ _
  | block =>
    simp only [BlockIo.step]
    split
    · exact hP
    split
    · apply h.afterWait
      exact h.same s _ ⟨rfl, rfl, rfl⟩ hP
    · exact h.same s _ ⟨rfl, rfl, rfl⟩ hP
  | timeout =>
    simp only [BlockIo.step]
    split
    · exact h.same s _ ⟨rfl, rfl, rfl⟩ hP
    exact hP
  | wake =>
    simp only [BlockIo.step]
    split
    · exact hP
    exact h.same s _ ⟨rfl, rfl, rfl⟩ hP
  | resume =>
    simp only [BlockIo.step]
    split
    · exact hP
    apply h.afterWait
    exact h.same s _ ⟨rfl, rfl, rfl⟩ hP
  | cancel => exact h.cancelPending hP
  | complete => exact h.completeFromIrq hP _ _

/-- A whole run, when any request may be armed. -/
theorem run (h : Stable P (fun _ => True)) (hP : P s) (events : List Event) : P (run s events) := by
  induction events generalizing s with
  | nil => exact hP
  | cons e events ih => exact ih (h.step (fun _ _ => trivial) hP)

end Stable

/-! ## §2. What holds in every run. -/

/-- How a request ended. -/
def Request.ending (r : Request) : RequestState × Status × TerminalReason :=
  (r.state, r.status, r.terminalReason)

/-- The request has ended this way. -/
def EndedAs (rid : Nat) (ending : RequestState × Status × TerminalReason) (s : State) : Prop :=
  ending.1.terminal ∧ (s.requests rid).ending = ending

theorem EndedAs.setRequest {x : Nat} (h : EndedAs rid ending s)
    (hr : x = rid → r.ending = (s.requests rid).ending) :
    EndedAs rid ending (s.setRequest x r) := by
  refine ⟨h.1, ?_⟩
  by_cases hx : rid = x
  · subst hx
    rw [requests_setRequest_self, hr rfl]
    exact h.2
  · rw [requests_setRequest_of_ne hx]
    exact h.2

theorem EndedAs.not_pending (h : EndedAs rid ending s) : (s.requests rid).state ≠ .pending := by
  intro hpending
  have hterminal := h.1
  rw [← h.2] at hterminal
  unfold Request.ending at hterminal
  rw [hpending] at hterminal
  cases hterminal

/-- A request without its slot. -/
def Request.unplaced (r : Request) : Request := { r with queued := false, queueSlot := UINT32_MAX }

theorem releaseRequestSlot_cases (s : State) (x : Nat) :
    releaseRequestSlot s x = s ∨ releaseRequestSlot s x = s.setRequest x (s.requests x).unplaced ∨
      ∃ q slot, s.queues (s.requests x).device = some q ∧ slot < QUEUE_CAPACITY_PER_DEVICE ∧
        (q.slots slot).isSome ∧ releaseRequestSlot s x =
          (s.setQueue (s.requests x).device (q.vacate slot)).setRequest x
            (s.requests x).unplaced := by
  unfold releaseRequestSlot
  cases hq : s.queues (s.requests x).device with
  | none => exact .inl (by simp only [hq])
  | some q =>
    simp only [hq]
    split
    · exact .inl rfl
    split
    · rename_i hplace
      refine .inr (.inr ⟨q, (s.requests x).queueSlot, rfl, hplace.1, ?_, rfl⟩)
      rw [hplace.2]
      rfl
    · exact .inr (.inl rfl)

/-- The end of a request stands until it is armed again. -/
theorem endedAs_stable (rid : Nat) (ending : RequestState × Status × TerminalReason) :
    Stable (EndedAs rid ending) (· ≠ rid) where
  same s s' hsame h := ⟨h.1, by rw [hsame.requests]; exact h.2⟩
  newQueue s d _ h := h
  prepare s x a hx h := EndedAs.setRequest h (fun heq => absurd heq hx)
  refuse s x status reason hx h := h.setRequest (fun heq => absurd heq hx)
  enqueue s x t s' hx hs h := by
    obtain ⟨q, slot, _, _, _, _, rfl⟩ := enqueueRequest_ok hs
    apply EndedAs.setRequest _ (fun heq => absurd heq hx)
    exact EndedAs.setRequest (s := s.setQueue _ _) h (fun heq => absurd heq hx)
  reject s x reason h := h.setRequest (fun heq => by rw [heq]; rfl)
  settle s x status reason hpending h :=
    h.setRequest (fun heq => absurd (heq ▸ hpending) h.not_pending)
  wake s x h := by
    unfold wakeOnce
    split
    · exact h
    exact EndedAs.setRequest h (fun heq => by rw [heq]; rfl)
  release s x h := by
    rcases releaseRequestSlot_cases s x with heq | heq | ⟨q, slot, _, _, _, heq⟩ <;> rw [heq]
    · exact h
    · exact h.setRequest (fun heq => by rw [heq]; rfl)
    · exact EndedAs.setRequest (s := s.setQueue _ _) h (fun heq => by rw [heq]; rfl)

/-- The queue's count of its slots. -/
def DeviceQueue.Counts (q : DeviceQueue) : Prop :=
  q.activeCount = occupied QUEUE_CAPACITY_PER_DEVICE (fun i => (q.slots i).isSome)

def Counted (s : State) : Prop := ∀ d q, s.queues d = some q → q.Counts

theorem DeviceQueue.Counts.take (h : q.Counts)
    (hlt : slot < QUEUE_CAPACITY_PER_DEVICE) (hnone : q.slots slot = none) (rid : Nat) :
    (q.take slot rid).Counts := by
  show q.activeCount + 1 = occupied _ (fun i => (update q.slots slot (some rid) i).isSome)
  rw [occupied_fill (p := fun i => (q.slots i).isSome) hlt]
  · rw [h]
  · simp [hnone]
  · simp
  · intro j _ hj
    simp [update_of_ne hj]

theorem DeviceQueue.Counts.vacate (h : q.Counts)
    (hlt : slot < QUEUE_CAPACITY_PER_DEVICE) (hsome : (q.slots slot).isSome) :
    (q.vacate slot).Counts := by
  have hcount : occupied QUEUE_CAPACITY_PER_DEVICE
      (fun i => (update q.slots slot none i).isSome) + 1 =
      occupied QUEUE_CAPACITY_PER_DEVICE (fun i => (q.slots i).isSome) := by
    apply occupied_vacate hlt hsome
    · simp
    · intro j _ hj
      simp [update_of_ne hj]
  show q.activeCount - 1 = occupied _ (fun i => (update q.slots slot none i).isSome)
  rw [h]
  omega

theorem Counted.setQueue (h : Counted s) (hq : q.Counts) : Counted (s.setQueue d q) := by
  intro x q1 hx
  by_cases hxd : x = d
  · subst hxd
    rw [queues_setQueue_self] at hx
    rw [← Option.some.inj hx]
    exact hq
  · rw [queues_setQueue_of_ne hxd] at hx
    exact h x q1 hx

theorem empty_counts : DeviceQueue.empty.Counts := by
  have hzero : occupied QUEUE_CAPACITY_PER_DEVICE (fun _ => (none : Option Nat).isSome) = 0 :=
    occupied_eq_zero.mpr (fun _ _ => rfl)
  exact hzero.symm

theorem counted_stable : Stable Counted (fun _ => True) where
  same s s' hsame h := by
    unfold Counted
    rw [hsame.queues]
    exact h
  newQueue s d _ h := h.setQueue empty_counts
  prepare s x a _ h := h
  refuse s x status reason _ h := h
  enqueue s x t s' _ hs h := by
    obtain ⟨q, slot, hq, hlt, hnone, _, rfl⟩ := enqueueRequest_ok hs
    exact h.setQueue ((h _ q hq).take hlt hnone x)
  reject s x reason h := h
  settle s x status reason _ h := h
  wake s x h := by
    unfold wakeOnce
    split <;> exact h
  release s x h := by
    rcases releaseRequestSlot_cases s x with heq | heq | ⟨q, slot, hq, hlt, hsome, heq⟩ <;> rw [heq]
    · exact h
    · exact h
    · exact h.setQueue ((h _ q hq).vacate hlt hsome)

/-- A request is woken at most once per arming, and is then marked as woken. -/
def WokenOnce (s : State) : Prop :=
  ∀ rid, s.wakes rid ≤ 1 ∧ ((s.requests rid).wakeIssued = false → s.wakes rid = 0)

theorem WokenOnce.setRequest (h : WokenOnce s)
    (hr : r.wakeIssued = (s.requests rid).wakeIssued) : WokenOnce (s.setRequest rid r) := by
  intro x
  refine ⟨(h x).1, fun hx => (h x).2 ?_⟩
  by_cases hxr : x = rid
  · subst hxr
    rw [requests_setRequest_self] at hx
    exact hr.symm.trans hx
  · rw [requests_setRequest_of_ne hxr] at hx
    exact hx

theorem WokenOnce.wakeOnce (h : WokenOnce s) : WokenOnce (wakeOnce s rid) := by
  unfold BlockIo.wakeOnce
  split
  · exact h
  rename_i hissued
  intro x
  show update s.wakes rid (s.wakes rid + 1) x ≤ 1 ∧
    (((s.setRequest rid _).requests x).wakeIssued = false →
      update s.wakes rid (s.wakes rid + 1) x = 0)
  by_cases hx : x = rid
  · subst hx
    have hzero := (h x).2 (Bool.not_eq_true _ ▸ hissued)
    rw [update_self, requests_setRequest_self, hzero]
    exact ⟨le_refl 1, fun heq => absurd heq (by simp)⟩
  · rw [update_of_ne hx, requests_setRequest_of_ne hx]
    exact h x

theorem WokenOnce.prepare (h : WokenOnce s) (a : Arguments) : WokenOnce (prepare s rid a) := by
  intro x
  show update s.wakes rid 0 x ≤ 1 ∧
    (((s.setRequest rid _).requests x).wakeIssued = false → update s.wakes rid 0 x = 0)
  by_cases hx : x = rid
  · subst hx
    rw [update_self]
    exact ⟨Nat.zero_le 1, fun _ => rfl⟩
  · rw [update_of_ne hx, requests_setRequest_of_ne hx]
    exact h x

theorem wokenOnce_stable : Stable WokenOnce (fun _ => True) where
  same s s' hsame h := by
    unfold WokenOnce
    rw [hsame.requests, hsame.wakes]
    exact h
  newQueue s d _ h := h
  prepare s x a _ h := h.prepare a
  refuse s x status reason _ h := h.setRequest rfl
  enqueue s x t s' _ hs h := by
    obtain ⟨q, slot, _, _, _, _, rfl⟩ := enqueueRequest_ok hs
    have hplaced : WokenOnce ((s.setQueue (s.requests x).device (q.take slot x)).setRequest x
        ((s.requests x).placed slot (nextGeneration (q.generations slot)))) :=
      WokenOnce.setRequest (s := s.setQueue _ _) h rfl
    exact WokenOnce.setRequest hplaced rfl
  reject s x reason h := h.setRequest rfl
  settle s x status reason _ h := h.setRequest rfl
  wake s x h := h.wakeOnce
  release s x h := by
    rcases releaseRequestSlot_cases s x with heq | heq | ⟨q, slot, _, _, _, heq⟩ <;> rw [heq]
    · exact h
    · exact h.setRequest rfl
    · exact WokenOnce.setRequest (s := s.setQueue _ _) h rfl

end BigOS.BlockIo
