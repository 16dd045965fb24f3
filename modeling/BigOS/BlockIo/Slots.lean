/-
  BigOS.BlockIo.Slots — requests and the slots they occupy.

  As long as a request is armed only while it is in no slot, a slot and the
  request in it point at each other: a request is in at most one slot, it is
  there exactly while it is marked as queued, and then it is pending or
  completed.  The generations tell the tokens of a slot apart.

  Main results:
    • `Inv` — the invariant,
    • `Inv.put`, `Inv.vacate`, `Inv.prepare`, `Inv.enqueue` — the elementary changes,
    • `releaseRequestSlot_inv`, `terminate_inv` — the locked sections.
-/
import BigOS.BlockIo.Model

namespace BigOS.BlockIo

open Function DeviceQueue List Option

/-! ## §1. The invariant. -/

/-- The request is in some slot. -/
def Occupies (queues : Nat → Option DeviceQueue) (rid : Nat) : Prop :=
  ∃ d q i, queues d = some q ∧ q.slots i = some rid

/-- The states of a request that is in a slot. -/
def RequestState.Holding (st : RequestState) : Prop :=
  st = .pending ∨ st = .completedSuccess ∨ st = .completedError

/-- The token is the current one of its slot, and its arming the current one of
its request, or it will not be accepted any more. -/
def Fresh (s : State) (t : Token) (arming : Nat) : Prop :=
  ∃ q, s.queues t.device = some q ∧ t.generation ≤ q.generations t.queueSlot ∧
    (q.slots t.queueSlot = some t.request → q.generations t.queueSlot = t.generation →
      arming = s.arming t.request)

/-- A call that returns while its request is pending says so, and one that returns
after its end leaves it in no slot. -/
structure Return.Released (r : Return) : Prop where
  pending : r.state = .pending → r.status = .wouldBlock
  ended : r.state ≠ .pending → ¬Occupies r.queues r.request

structure Inv (s : State) : Prop where
  owner : ∀ d q i rid, s.queues d = some q → q.slots i = some rid →
    i < QUEUE_CAPACITY_PER_DEVICE ∧ (s.requests rid).queued ∧
      (s.requests rid).device = d ∧ (s.requests rid).queueSlot = i
  placed : ∀ rid, (s.requests rid).queued → ∃ q, s.queues (s.requests rid).device = some q ∧
      q.slots (s.requests rid).queueSlot = some rid
  holding : ∀ rid, (s.requests rid).queued → (s.requests rid).state.Holding
  pending : ∀ rid, (s.requests rid).state = .pending → (s.requests rid).queued
  tokens : ∀ ta ∈ s.issued, Fresh s ta.1 ta.2
  returned : ∀ r ∈ s.returns, r.Released

section

variable {s s' : State} {rid d x slot : Nat} {r : Request} {q q' : DeviceQueue} {t : Token}
  {v : Option Nat}

/-- What the invariant reads of a request. -/
def Request.core (r : Request) : Nat × RequestState × Nat × Bool :=
  (r.device, r.state, r.queueSlot, r.queued)

theorem Inv.congr (h : Inv s) (hreq : s'.requests = s.requests) (hqueues : s'.queues = s.queues)
    (harming : s'.arming = s.arming) (hissued : s'.issued = s.issued)
    (hreturns : s'.returns = s.returns) : Inv s' := by
  have htokens : ∀ ta ∈ s'.issued, Fresh s' ta.1 ta.2 := by
    unfold Fresh
    rw [hissued, hqueues, harming]
    exact h.tokens
  refine ⟨?_, ?_, ?_, ?_, htokens, hreturns ▸ h.returned⟩ <;> simp only [hreq, hqueues]
  · exact h.owner
  · exact h.placed
  · exact h.holding
  · exact h.pending

theorem Inv.occupies_iff (h : Inv s) : Occupies s.queues rid ↔ (s.requests rid).queued := by
  constructor
  · rintro ⟨d, q, i, hq, hi⟩
    exact (h.owner d q i rid hq hi).2.1
  · intro hqueued
    obtain ⟨q, hq, hi⟩ := h.placed rid hqueued
    exact ⟨_, q, _, hq, hi⟩

/-- A call returns for a request that is in no slot. -/
theorem Inv.finish_free (h : Inv s) (hqueued : (s.requests rid).queued = false)
    (status : Status) : Inv (s.finish rid status) := by
  have hfree : ¬Occupies s.queues rid := by
    rw [h.occupies_iff, hqueued]
    exact Bool.false_ne_true
  refine ⟨h.owner, h.placed, h.holding, h.pending, h.tokens, fun r hr => ?_⟩
  rcases mem_append.mp hr with hr | hr
  · exact h.returned r hr
  · rw [mem_singleton.mp hr]
    refine ⟨fun hpending => ?_, fun _ => hfree⟩
    rw [h.pending rid hpending] at hqueued
    cases hqueued.symm

/-- A call returns for a request that is still pending. -/
theorem Inv.finish_pending (h : Inv s) (hpending : (s.requests rid).state = .pending) :
    Inv (s.finish rid .wouldBlock) := by
  refine ⟨h.owner, h.placed, h.holding, h.pending, h.tokens, fun r hr => ?_⟩
  rcases mem_append.mp hr with hr | hr
  · exact h.returned r hr
  · rw [mem_singleton.mp hr]
    exact ⟨fun _ => rfl, fun hended => absurd hpending hended⟩

/-! ## §2. One request changes. -/

@[simp] theorem requests_setRequest_self : (s.setRequest rid r).requests rid = r := update_self ..

theorem requests_setRequest_of_ne (h : x ≠ rid) : (s.setRequest rid r).requests x = s.requests x :=
  update_of_ne h ..

theorem Inv.holding_update (h : Inv s) (hr : r.queued → r.state.Holding) :
    ∀ x, (update s.requests rid r x).queued → (update s.requests rid r x).state.Holding :=
  (forall_update_iff s.requests (p := fun _ r => r.queued = true → r.state.Holding)).mpr
    ⟨hr, fun x _ => h.holding x⟩

theorem Inv.pending_update (h : Inv s) (hr : r.state = .pending → r.queued) :
    ∀ x, (update s.requests rid r x).state = .pending → (update s.requests rid r x).queued :=
  (forall_update_iff s.requests (p := fun _ r => r.state = .pending → r.queued = true)).mpr
    ⟨hr, fun x _ => h.pending x⟩

/-- A request changes its state, but not its place. -/
theorem Inv.put (h : Inv s) (hdevice : r.device = (s.requests rid).device)
    (hslot : r.queueSlot = (s.requests rid).queueSlot)
    (hqueued : r.queued = (s.requests rid).queued) (hholding : r.queued → r.state.Holding)
    (hpending : r.state = .pending → r.queued) : Inv (s.setRequest rid r) := by
  refine ⟨?_, ?_, h.holding_update hholding, h.pending_update hpending, h.tokens, h.returned⟩
  · intro d q i x hq hi
    obtain ⟨hlt, hx, hxd, hxs⟩ := h.owner d q i x hq hi
    by_cases hxr : x = rid
    · subst hxr
      rw [requests_setRequest_self]
      exact ⟨hlt, hqueued.trans hx, hdevice.trans hxd, hslot.trans hxs⟩
    · rw [requests_setRequest_of_ne hxr]
      exact ⟨hlt, hx, hxd, hxs⟩
  · intro x hx
    by_cases hxr : x = rid
    · subst hxr
      rw [requests_setRequest_self] at hx ⊢
      rw [hdevice, hslot]
      exact h.placed x (hqueued.symm.trans hx)
    · rw [requests_setRequest_of_ne hxr] at hx ⊢
      exact h.placed x hx

/-- Fields the invariant does not read. -/
theorem Inv.decorate (h : Inv s) (hcore : r.core = (s.requests rid).core) :
    Inv (s.setRequest rid r) := by
  simp only [Request.core, Prod.mk.injEq] at hcore
  obtain ⟨hdevice, hstate, hslot, hqueued⟩ := hcore
  refine h.put hdevice hslot hqueued (fun hr => ?_) (fun hr => ?_)
  · rw [hstate]
    exact h.holding rid (hqueued.symm.trans hr)
  · rw [hqueued]
    exact h.pending rid (hstate.symm.trans hr)

/-- A request that is in no slot is prepared for a new arming. -/
theorem Inv.prepare (h : Inv s) (hfree : ¬Occupies s.queues rid) (a : Arguments) :
    Inv (prepare s rid a) := by
  have hnone : ∀ d q i, s.queues d = some q → q.slots i ≠ some rid :=
    fun d q i hq hi => hfree ⟨d, q, i, hq, hi⟩
  have hself : ((BlockIo.prepare s rid a).requests rid).queued = false := by
    show ((s.setRequest rid _).requests rid).queued = false
    rw [requests_setRequest_self]
    rfl
  have hother : ∀ x, x ≠ rid → (BlockIo.prepare s rid a).requests x = s.requests x :=
    fun x hx => requests_setRequest_of_ne hx
  refine ⟨?_, ?_, h.holding_update nofun, h.pending_update fun hpending => ?_, ?_, h.returned⟩
  · intro d q i x hq hi
    have hx : x ≠ rid := fun heq => hnone d q i hq (heq ▸ hi)
    rw [hother x hx]
    exact h.owner d q i x hq hi
  · intro x hx
    have hxr : x ≠ rid := by
      rintro rfl
      rw [hself] at hx
      cases hx
    rw [hother x hxr] at hx ⊢
    exact h.placed x hx
  · have hstate : (if validateRequest a = .success then RequestState.queued else .invalid) =
      .pending :=
      hpending
    split at hstate <;> exact nomatch hstate
  · intro ta hta
    obtain ⟨q, hq, hgen, hcurrent⟩ := h.tokens ta hta
    refine ⟨q, hq, hgen, fun hi hg => ?_⟩
    have hne : ta.1.request ≠ rid := fun heq => hnone _ q _ hq (heq ▸ hi)
    show ta.2 = update s.arming rid _ ta.1.request
    rw [update_of_ne hne]
    exact hcurrent hi hg

/-! ## §3. Queues. -/

theorem queues_setQueue_self : (s.setQueue d q).queues d = some q := update_self ..

theorem queues_setQueue_of_ne (h : x ≠ d) : (s.setQueue d q).queues x = s.queues x :=
  update_of_ne h ..

/-- What is in another slot than the one that changes stays there. -/
theorem placed_setQueue {i y : Nat} (hq : s.queues d = some q)
    (hslots : q'.slots = update q.slots slot v) (hne : q.slots slot ≠ some y)
    (h : ∃ q0, s.queues x = some q0 ∧ q0.slots i = some y) :
    ∃ q1, (s.setQueue d q').queues x = some q1 ∧ q1.slots i = some y := by
  obtain ⟨q0, hq0, hi⟩ := h
  by_cases hx : x = d
  · subst hx
    obtain rfl : q = q0 := some.inj (hq.symm.trans hq0)
    have his : i ≠ slot := fun heq => hne (heq ▸ hi)
    exact ⟨q', queues_setQueue_self, by rw [hslots, update_of_ne his]; exact hi⟩
  · exact ⟨q0, (queues_setQueue_of_ne hx).trans hq0, hi⟩

/-- What is in a slot after one slot changed is what that was given, or was there before. -/
theorem slots_setQueue {q1 : DeviceQueue} {i y : Nat}
    (hq : s.queues d = some q) (hslots : q'.slots = update q.slots slot v)
    (hx : (s.setQueue d q').queues x = some q1) (hi : q1.slots i = some y) :
    (x = d ∧ i = slot ∧ v = some y) ∨
      (¬(x = d ∧ i = slot) ∧ ∃ q0, s.queues x = some q0 ∧ q0.slots i = some y) := by
  by_cases hxd : x = d
  · subst hxd
    rw [queues_setQueue_self] at hx
    rw [← some.inj hx, hslots] at hi
    by_cases his : i = slot
    · rw [his, update_self] at hi
      exact .inl ⟨rfl, his, hi⟩
    · rw [update_of_ne his] at hi
      exact .inr ⟨fun hself => his hself.2, q, hq, hi⟩
  · rw [queues_setQueue_of_ne hxd] at hx
    exact .inr ⟨fun hself => hxd hself.1, q1, hx, hi⟩

/-- A token stays as good as it was if a slot that is filled gets a new generation. -/
theorem Fresh.setQueue {arming : Nat} (h : Fresh s t arming)
    (hq : s.queues d = some q) (hle : ∀ i, q.generations i ≤ q'.generations i)
    (hsame : ∀ i x, q'.slots i = some x → q'.generations i = q.generations i →
      q.slots i = some x) : Fresh (s.setQueue d q') t arming := by
  obtain ⟨q0, hq0, hgen, hcurrent⟩ := h
  by_cases hd : t.device = d
  · rw [hd, hq] at hq0
    obtain rfl : q = q0 := some.inj hq0
    refine ⟨q', by rw [hd, queues_setQueue_self], hgen.trans (hle _), fun hi hg => ?_⟩
    have heq : q'.generations t.queueSlot = q.generations t.queueSlot :=
      Nat.le_antisymm (by omega) (hle _)
    exact hcurrent (hsame _ _ hi heq) (heq.symm.trans hg)
  · exact ⟨q0, (queues_setQueue_of_ne hd).trans hq0, hgen, hcurrent⟩

theorem queueFor_cases (h : queueFor s d = some s') : (s' = s ∧ ∃ q, s.queues d = some q) ∨
      (s.queues d = none ∧ s' = { s.setQueue d empty with nrQueues := s.nrQueues + 1 }) := by
  unfold queueFor at h
  cases hq : s.queues d with
  | some q =>
    rw [hq] at h
    exact .inl ⟨(some.inj h).symm, q, rfl⟩
  | none =>
    rw [hq] at h
    simp only at h
    split at h
    · exact .inr ⟨rfl, (some.inj h).symm⟩
    · cases h

/-- An empty queue adds no request to those that are queued. -/
theorem slots_newQueue {i rid : Nat} {q : DeviceQueue}
    (hq : (s.setQueue d empty).queues x = some q) (hi : q.slots i = some rid) :
    s.queues x = some q := by
  by_cases hx : x = d
  · subst hx
    rw [queues_setQueue_self] at hq
    rw [← some.inj hq] at hi
    exact absurd hi (by simp [empty])
  · rwa [queues_setQueue_of_ne hx] at hq

/-- A device gets an empty queue. -/
theorem Inv.newQueue (h : Inv s) (hd : s.queues d = none) :
    Inv { s.setQueue d empty with nrQueues := s.nrQueues + 1 } := by
  have hold : ∀ x q, s.queues x = some q → (s.setQueue d empty).queues x = some q := by
    intro x q hq
    rw [queues_setQueue_of_ne]
    · exact hq
    · rintro rfl
      rw [hd] at hq
      cases hq
  refine ⟨?_, ?_, h.holding, h.pending, ?_, h.returned⟩
  · intro x q i rid hq hi
    exact h.owner x q i rid (slots_newQueue hq hi) hi
  · intro rid hqueued
    obtain ⟨q, hq, hi⟩ := h.placed rid hqueued
    exact ⟨q, hold _ q hq, hi⟩
  · intro ta hta
    obtain ⟨q, hq, hgen, hcurrent⟩ := h.tokens ta hta
    exact ⟨q, hold _ q hq, hgen, hcurrent⟩

theorem queueFor_inv (h : Inv s) (hs : queueFor s d = some s') :
    Inv s' ∧ s'.requests = s.requests ∧ (∃ q, s'.queues d = some q) ∧
      (∀ rid, Occupies s'.queues rid → Occupies s.queues rid) := by
  rcases queueFor_cases hs with ⟨rfl, hq⟩ | ⟨hnone, rfl⟩
  · exact ⟨h, rfl, hq, fun _ ho => ho⟩
  · refine ⟨h.newQueue hnone, rfl, ⟨_, queues_setQueue_self⟩, ?_⟩
    rintro rid ⟨x, q, i, hq, hi⟩
    exact ⟨x, q, i, slots_newQueue hq hi, hi⟩

theorem touchQueue_inv (h : Inv s) (rid : Nat) :
    Inv (touchQueue s rid) ∧ (touchQueue s rid).requests = s.requests := by
  unfold touchQueue
  cases hs : queueFor s (s.requests rid).device with
  | none => exact ⟨h, rfl⟩
  | some =>
    obtain ⟨hinv, hreq, _⟩ := queueFor_inv h hs
    exact ⟨hinv, hreq⟩

/-! ## §4. Giving up a slot. -/

/-- A queued request leaves its slot, with any state but pending. -/
theorem Inv.vacate (h : Inv s) (hqueued : (s.requests rid).queued)
    (hq : s.queues (s.requests rid).device = some q)
    (hdevice : r.device = (s.requests rid).device) (hr : r.queued = false)
    (hstate : r.state ≠ .pending) :
    Inv ((s.setQueue (s.requests rid).device (q.vacate (s.requests rid).queueSlot)).setRequest
      rid r) := by
  obtain ⟨q', hq', hplace⟩ := h.placed rid hqueued
  obtain rfl : q = q' := some.inj (hq.symm.trans hq')
  refine ⟨?_, ?_, h.holding_update fun hrq => (nomatch hr.symm.trans hrq),
    h.pending_update fun hrs => absurd hrs hstate, fun ta hta => ?_, h.returned⟩
  · intro x q1 i y hx hi
    have hx : (s.setQueue _ (q.vacate _)).queues x = some q1 := hx
    rcases slots_setQueue hq rfl hx hi with ⟨_, _, hgone⟩ | ⟨hother, q0, hq0, hi0⟩
    · cases hgone
    -- What is left in a slot is another request.
    have howner := h.owner x q0 i y hq0 hi0
    have hne : y ≠ rid := by
      rintro rfl
      exact hother ⟨howner.2.2.1.symm, howner.2.2.2.symm⟩
    rw [requests_setRequest_of_ne hne]
    exact howner
  · intro y hy
    have hne : y ≠ rid := by
      rintro rfl
      rw [requests_setRequest_self, hr] at hy
      cases hy
    rw [requests_setRequest_of_ne hne] at hy ⊢
    exact placed_setQueue hq rfl (by rw [hplace]; simpa using hne.symm) (h.placed y hy)
  · refine (h.tokens ta hta).setQueue hq (fun _ => Nat.le_refl _) (fun i x hi _ => ?_)
    have hi : update q.slots (s.requests rid).queueSlot none i = some x := hi
    by_cases his : i = (s.requests rid).queueSlot
    · rw [his, update_self] at hi
      cases hi
    · rwa [update_of_ne his] at hi

/-- The slot of a request that is in it. -/
theorem releaseRequestSlot_of_placed (hqueued : (s.requests rid).queued)
    (hq : s.queues (s.requests rid).device = some q)
    (hlt : (s.requests rid).queueSlot < QUEUE_CAPACITY_PER_DEVICE)
    (hplace : q.slots (s.requests rid).queueSlot = some rid) : releaseRequestSlot s rid =
      (s.setQueue (s.requests rid).device (q.vacate (s.requests rid).queueSlot)).setRequest rid
        { s.requests rid with queued := false, queueSlot := UINT32_MAX } := by
  unfold releaseRequestSlot
  simp only [hq, hqueued, Bool.not_true, Bool.false_eq_true, if_false]
  rw [if_pos ⟨hlt, hplace⟩]

theorem releaseRequestSlot_of_not_queued (hqueued : (s.requests rid).queued = false) :
    releaseRequestSlot s rid = s := by
  unfold releaseRequestSlot
  cases hq : s.queues (s.requests rid).device with
  | none => simp only [hq]
  | some => simp only [hq, hqueued, Bool.not_false, if_true]

/-- After its release a request that is not pending is in no slot. -/
theorem releaseRequestSlot_inv (h : Inv s) (hstate : (s.requests rid).state ≠ .pending) :
    Inv (releaseRequestSlot s rid) ∧ ((releaseRequestSlot s rid).requests rid).queued = false := by
  cases hqueued : (s.requests rid).queued with
  | false =>
    rw [releaseRequestSlot_of_not_queued hqueued]
    exact ⟨h, hqueued⟩
  | true =>
    obtain ⟨q, hq, hplace⟩ := h.placed rid hqueued
    have hlt := (h.owner _ q _ rid hq hplace).1
    rw [releaseRequestSlot_of_placed hqueued hq hlt hplace]
    refine ⟨h.vacate hqueued hq rfl rfl hstate, ?_⟩
    rw [requests_setRequest_self]

/-- A pending request ends and leaves its slot. -/
theorem terminate_inv (h : Inv s) (hpending : (s.requests rid).state = .pending)
    (status : Status) (reason : TerminalReason) : Inv (terminate s rid status reason) ∧
      ((terminate s rid status reason).requests rid).queued = false := by
  have hqueued := h.pending rid hpending
  obtain ⟨q, hq, hplace⟩ := h.placed rid hqueued
  have hlt := (h.owner _ q _ rid hq hplace).1
  have hself : (s.setRequest rid ((s.requests rid).setTerminal status reason)).requests rid =
      (s.requests rid).setTerminal status reason := requests_setRequest_self
  have heq : terminate s rid status reason =
      (s.setQueue (s.requests rid).device (q.vacate (s.requests rid).queueSlot)).setRequest rid
        { (s.requests rid).setTerminal status reason with
          queued := false, queueSlot := UINT32_MAX } := by
    unfold terminate
    rw [releaseRequestSlot_of_placed (q := q)] <;> rw [hself]
    · unfold State.setRequest State.setQueue
      simp only [update_idem]
      rfl
    · exact hqueued
    · exact hq
    · exact hlt
    · exact hplace
  rw [heq]
  have hended : ((s.requests rid).setTerminal status reason).state ≠ .pending := by
    unfold Request.setTerminal
    split_ifs <;> simp
  refine ⟨h.vacate hqueued hq rfl rfl hended, ?_⟩
  rw [requests_setRequest_self]

/-! ## §5. Taking a slot. -/

/-- The request as `enqueue_request` leaves it. -/
def Request.placed (r : Request) (slot generation : Nat) : Request :=
  { r with
    queueSlot := slot
    completionGeneration := generation
    queued := true
    state := .pending
    terminalReason := .none
    rejectionReason := .none }

theorem freeSlot_spec (h : q.freeSlot = some slot) :
    slot < QUEUE_CAPACITY_PER_DEVICE ∧ q.slots slot = none := by
  unfold freeSlot at h
  have hmem := mem_of_find?_eq_some h
  have hp := List.find?_some h
  exact ⟨mem_range.mp hmem, isNone_iff_eq_none.mp hp⟩

theorem enqueueRequest_ok (h : enqueueRequest s rid = .ok (t, s')) :
    ∃ q slot, s.queues (s.requests rid).device = some q ∧
      slot < QUEUE_CAPACITY_PER_DEVICE ∧ q.slots slot = none ∧
      t = ⟨rid, (s.requests rid).device, slot, nextGeneration (q.generations slot)⟩ ∧
      s' = { (s.setQueue (s.requests rid).device (q.take slot rid)).setRequest rid
              ((s.requests rid).placed slot (nextGeneration (q.generations slot))) with
        issued := s.issued ++ [(t, s.arming rid)] } := by
  unfold enqueueRequest at h
  cases hq : s.queues (s.requests rid).device with
  | none =>
    simp only [hq] at h
    cases h
  | some q =>
    simp only [hq] at h
    split at h
    · cases h
    cases hfree : q.freeSlot with
    | none =>
      simp only [hfree] at h
      cases h
    | some slot =>
      simp only [hfree, Except.ok.injEq, Prod.mk.injEq] at h
      obtain ⟨hlt, hnone⟩ := freeSlot_spec hfree
      obtain ⟨ht, hs⟩ := h
      refine ⟨q, slot, rfl, hlt, hnone, ht.symm, ?_⟩
      rw [← hs, ← ht]
      rfl

theorem nextGeneration_of_lt {g : Nat} (h : g < 2 ^ 32 - 1) : nextGeneration g = g + 1 := by
  unfold nextGeneration
  rw [Nat.mod_eq_of_lt (by omega), if_neg (by omega)]

/-- A request that is in no slot takes a free one whose generation does not wrap. -/
theorem Inv.enqueue (h : Inv s) (hfree : ¬Occupies s.queues rid)
    (hgens : ∀ d q i, s.queues d = some q → q.generations i < 2 ^ 32 - 1)
    (hs : enqueueRequest s rid = .ok (t, s')) : Inv s' := by
  obtain ⟨q, slot, hq, hlt, hnone, rfl, rfl⟩ := enqueueRequest_ok hs
  have hgen := nextGeneration_of_lt (hgens _ q slot hq)
  refine ⟨?_, ?_, h.holding_update fun _ => .inl rfl, h.pending_update fun _ => rfl, ?_, h.returned⟩
  · intro x q1 i y hx hi
    have hx : (s.setQueue _ (q.take slot rid)).queues x = some q1 := hx
    rcases slots_setQueue hq rfl hx hi with ⟨rfl, rfl, hnew⟩ | ⟨_, q0, hq0, hi0⟩
    · obtain rfl := some.inj hnew
      show (fun r => _ ∧ r.queued = true ∧ r.device = _ ∧ r.queueSlot = i)
        ((State.setRequest _ rid _).requests rid)
      rw [requests_setRequest_self]
      exact ⟨hlt, rfl, rfl, rfl⟩
    · have hne : y ≠ rid := fun heq => hfree ⟨x, q0, i, hq0, heq ▸ hi0⟩
      show (fun r => _ ∧ r.queued = true ∧ r.device = _ ∧ r.queueSlot = i)
        ((State.setRequest _ rid _).requests y)
      rw [requests_setRequest_of_ne hne]
      exact h.owner x q0 i y hq0 hi0
  · intro y hy
    show ∃ q1, (s.setQueue (s.requests rid).device (q.take slot rid)).queues
        ((State.setRequest _ rid _).requests y).device = some q1 ∧
        q1.slots ((State.setRequest _ rid _).requests y).queueSlot = some y
    by_cases hyr : y = rid
    · subst hyr
      rw [requests_setRequest_self]
      exact ⟨_, queues_setQueue_self, update_self ..⟩
    · have hy : ((State.setRequest _ rid _).requests y).queued := hy
      rw [requests_setRequest_of_ne hyr] at hy ⊢
      exact placed_setQueue hq rfl (by rw [hnone]; nofun) (h.placed y hy)
  · intro ta hta
    rcases mem_append.mp hta with hta | hta
    · refine (h.tokens ta hta).setQueue hq (fun i => ?_) (fun i x hi heq => ?_)
      · show _ ≤ update q.generations slot _ i
        by_cases his : i = slot
        · rw [his, update_self, hgen]
          omega
        · rw [update_of_ne his]
      · -- The slot that is filled gets a new generation.
        have heq : update q.generations slot _ i = _ := heq
        have his : i ≠ slot := by
          rintro rfl
          rw [update_self, hgen] at heq
          omega
        have hi : update q.slots slot _ i = _ := hi
        rwa [update_of_ne his] at hi
    · rw [mem_singleton.mp hta]
      refine ⟨q.take slot rid, queues_setQueue_self, ?_, fun _ _ => rfl⟩
      show _ ≤ update q.generations slot _ slot
      rw [update_self]

end

end BigOS.BlockIo
