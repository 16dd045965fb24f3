/-
  BigOS.Fs.Bcache.Flush — what writing back and dropping slots does.

  The sync calls, eviction and invalidation write dirty slots back and drop
  clean ones.  `Flushes` says once what a series of such changes can do: a slot
  stays as it is or becomes clean, or it is unreferenced and dropped; and what
  was dirty is still there, or on the device.

  Main results:
    • `Keys`, `Flushes`, `Flushes.trans` — the invariant of the keys and the relation,
    • `writeBack_flushes`, `drop_flushes` — the two elementary changes,
    • `KeptByWrites`, `orderedFlush_rule`, `syncDevice_rule` — the rules of the sync calls,
    • `syncDevice_flushes`, `orderedFlush_flushes`, `invalidateDevice_flushes` — the calls.
-/
import BigOS.Fs.Bcache.Model

namespace BigOS.Fs.Bcache

open Function

variable {β : Type} {s s' s₁ s₂ : State β} {i d b : Nat} {canBlock : Bool} {io : Nat → WriteIo β}

/-! ## §1. Tables. -/

theorem put2_self (f : Nat → Nat → β) (d b : Nat) (x : β) : put2 f d b x d b = x := by
  unfold put2
  rw [update_self, update_self]

theorem put2_of_ne {f : Nat → Nat → β} {d b d' b' : Nat} {x : β} (h : ¬(d' = d ∧ b' = b)) :
    put2 f d b x d' b' = f d' b' := by
  unfold put2
  by_cases hd : d' = d
  · subst hd
    rw [update_self]
    exact update_of_ne (fun hb => h ⟨rfl, hb⟩) ..
  · rw [update_of_ne hd]

@[simp] theorem slots_setSlot_self {slot : BufferBlock β} : (s.setSlot i slot).slots i = slot :=
  update_self ..

theorem slots_setSlot_of_ne {slot : BufferBlock β} {j : Nat} (h : j ≠ i) :
    (s.setSlot i slot).slots j = s.slots j :=
  update_of_ne h ..

/-! ## §2. Keys. -/

/-- A block is in at most one slot, and what is used or referenced is a slot with
a block. -/
structure Keys (s : State β) : Prop where
  unique : ∀ i j d b, s.Holds i d b → s.Holds j d b → i = j
  device : ∀ i, (s.slots i).used → ∃ d, (s.slots i).dev = some d
  range : ∀ i, (s.slots i).used → i < CACHE_BLOCKS
  pinned : ∀ i, (s.slots i).refCount ≠ 0 → (s.slots i).used
  uninit : s.initialized = false → ∀ i, (s.slots i).used = false

theorem Keys.holds (h : Keys s) (hused : (s.slots i).used) :
    ∃ d, s.Holds i d (s.slots i).blockNo := by
  obtain ⟨d, hd⟩ := h.device i hused
  exact ⟨d, hused, hd, rfl⟩

theorem Holds.key_eq {d' b' : Nat} (h : s.Holds i d b) (h' : s.Holds i d' b') : d' = d ∧ b' = b :=
  ⟨Option.some.inj (h'.2.1.symm.trans h.2.1), h'.2.2.symm.trans h.2.2⟩

theorem findSlot_some {dev : Option Nat} (h : findSlot s dev b = some i) :
    i < CACHE_BLOCKS ∧ (s.slots i).used ∧ (s.slots i).dev = dev ∧ (s.slots i).blockNo = b := by
  unfold findSlot at h
  have hmem := List.mem_range.mp (List.mem_of_find?_eq_some h)
  have hp := List.find?_some h
  simp only [Bool.and_eq_true, beq_iff_eq] at hp
  exact ⟨hmem, hp.1.1, hp.1.2, hp.2⟩

theorem findSlot_none (h : findSlot s (some d) b = none) (hkeys : Keys s) (i : Nat) :
    ¬s.Holds i d b := by
  unfold findSlot at h
  rw [List.find?_eq_none] at h
  intro hholds
  have hnot := h i (List.mem_range.mpr (hkeys.range i hholds.1))
  simp [hholds.1, hholds.2.1, hholds.2.2] at hnot

/-! ## §3. The relation. -/

/-- The slot is as it was, or has become clean. -/
structure SlotKept (slot slot' : BufferBlock β) : Prop where
  used : slot'.used = slot.used
  dev : slot'.dev = slot.dev
  blockNo : slot'.blockNo = slot.blockNo
  data : slot'.data = slot.data
  refCount : slot'.refCount = slot.refCount
  dirty : slot'.dirty → slot.dirty

/-- The slot was unreferenced and is now empty. -/
structure SlotDropped (slot slot' : BufferBlock β) : Prop where
  free : slot.refCount = 0
  used : slot'.used = false
  refCount : slot'.refCount = 0

structure Flushes (s s' : State β) : Prop where
  slot : ∀ i, SlotKept (s.slots i) (s'.slots i) ∨ SlotDropped (s.slots i) (s'.slots i)
  settled : ∀ i d b, s.Holds i d b → (s.slots i).dirty →
    (s'.Holds i d b ∧ (s'.slots i).dirty) ∨ s'.disk d b = (s.slots i).data
  frame : ∀ d b, (∀ i, s.Holds i d b → (s.slots i).dirty = false) → s'.disk d b = s.disk d b
  started : s.initialized → s'.initialized
  pins : s'.pins = s.pins
  view : s'.view = s.view

theorem SlotKept.refl (slot : BufferBlock β) : SlotKept slot slot :=
  ⟨rfl, rfl, rfl, rfl, rfl, fun h => h⟩

theorem Flushes.refl (s : State β) : Flushes s s where
  slot _ := .inl (SlotKept.refl _)
  settled _ _ _ h hd := .inl ⟨h, hd⟩
  frame _ _ _ := rfl
  started h := h
  pins := rfl
  view := rfl

namespace Flushes

theorem holds (h : Flushes s s') (hh : s'.Holds i d b) :
    SlotKept (s.slots i) (s'.slots i) ∧ s.Holds i d b := by
  rcases h.slot i with hk | hd
  · exact ⟨hk, hk.used.symm.trans hh.1, hk.dev.symm.trans hh.2.1, hk.blockNo.symm.trans hh.2.2⟩
  · have hused := hh.1
    rw [hd.used] at hused
    cases hused

/-- A referenced slot keeps its block. -/
theorem kept (h : Flushes s s') (href : (s.slots i).refCount ≠ 0) :
    SlotKept (s.slots i) (s'.slots i) := by
  rcases h.slot i with hk | hd
  · exact hk
  · exact absurd hd.free href

theorem holds_pinned (h : Flushes s s') (hh : s.Holds i d b) (href : (s.slots i).refCount ≠ 0) :
    s'.Holds i d b :=
  have hk := h.kept href
  ⟨hk.used.trans hh.1, hk.dev.trans hh.2.1, hk.blockNo.trans hh.2.2⟩

theorem keys (h : Flushes s s') (hkeys : Keys s) : Keys s' where
  unique i j d b hi hj := hkeys.unique i j d b (h.holds hi).2 (h.holds hj).2
  device i hused := by
    rcases h.slot i with hk | hd
    · rw [hk.dev]
      exact hkeys.device i (hk.used.symm.trans hused)
    · rw [hd.used] at hused
      cases hused
  range i hused := by
    rcases h.slot i with hk | hd
    · exact hkeys.range i (hk.used.symm.trans hused)
    · rw [hd.used] at hused
      cases hused
  pinned i href := by
    rcases h.slot i with hk | hd
    · rw [hk.used]
      exact hkeys.pinned i (hk.refCount ▸ href)
    · exact absurd hd.refCount href
  uninit hinit i := by
    have hinit0 : s.initialized = false := by
      rw [← Bool.not_eq_true]
      intro htrue
      rw [h.started htrue] at hinit
      cases hinit.symm
    rcases h.slot i with hk | hd
    · rw [hk.used]
      exact hkeys.uninit hinit0 i
    · exact hd.used

theorem trans (hkeys : Keys s) (h1 : Flushes s s₁) (h2 : Flushes s₁ s₂) : Flushes s s₂ where
  slot i := by
    rcases h1.slot i with hk1 | hd1
    · rcases h2.slot i with hk2 | hd2
      · exact .inl ⟨hk2.used.trans hk1.used, hk2.dev.trans hk1.dev,
          hk2.blockNo.trans hk1.blockNo, hk2.data.trans hk1.data,
          hk2.refCount.trans hk1.refCount, fun hd => hk1.dirty (hk2.dirty hd)⟩
      · exact .inr ⟨hk1.refCount ▸ hd2.free, hd2.used, hd2.refCount⟩
    · rcases h2.slot i with hk2 | hd2
      · exact .inr ⟨hd1.free, hk2.used.trans hd1.used, hk2.refCount.trans hd1.refCount⟩
      · exact .inr ⟨hd1.free, hd2.used, hd2.refCount⟩
  settled i d b hholds hdirty := by
    by_cases hstill : s₁.Holds i d b ∧ (s₁.slots i).dirty
    · have hdata := (h1.holds hstill.1).1.data
      rw [← hdata]
      exact h2.settled i d b hstill.1 hstill.2
    -- The block is on the device, and no slot holds it dirty any more.
    have hdisk : s₁.disk d b = (s.slots i).data :=
      (h1.settled i d b hholds hdirty).resolve_left hstill
    right
    rw [← hdisk]
    apply h2.frame
    intro j hj
    have hij : j = i := hkeys.unique j i d b (h1.holds hj).2 hholds
    subst hij
    rw [← Bool.not_eq_true]
    exact fun hd => hstill ⟨hj, hd⟩
  frame d b hclean := by
    rw [h2.frame d b, h1.frame d b hclean]
    intro i hi
    have hk := h1.holds hi
    rw [← Bool.not_eq_true]
    intro hd
    have hwas := hclean i hk.2
    rw [hk.1.dirty hd] at hwas
    cases hwas.symm
  started h := h2.started (h1.started h)
  pins := h2.pins.trans h1.pins
  view := h2.view.trans h1.view

end Flushes

/-! ## §4. The two changes. -/

theorem writeBack_fst_success {io : WriteIo β}
    (h : (writeBack s i canBlock io).1 = .success) (hholds : s.Holds i d b) :
    (writeBack s i canBlock io).2 =
      (s.setDisk d b (s.slots i).data).setSlot i { s.slots i with dirty := false } := by
  unfold writeBack at h ⊢
  cases canBlock with
  | false => cases h
  | true =>
    simp only [hholds.2.1, Bool.not_true, Bool.false_eq_true, if_false] at h ⊢
    cases io with
    | failed => cases h
    | ok => rw [hholds.2.2]

/-- What `write_back` can leave. -/
theorem writeBack_cases (s : State β) (hholds : s.Holds i d b) (canBlock : Bool) (io : WriteIo β) :
    (writeBack s i canBlock io).2 = s ∨
      (∃ left, (writeBack s i canBlock io).2 = s.setDisk d b left) ∨ (writeBack s i canBlock io).2 =
        (s.setDisk d b (s.slots i).data).setSlot i { s.slots i with dirty := false } := by
  unfold writeBack
  cases canBlock with
  | false => exact .inl rfl
  | true =>
    simp only [hholds.2.1, Bool.not_true, Bool.false_eq_true, if_false]
    rw [hholds.2.2]
    cases io with
    | failed left => exact .inr (.inl ⟨left, rfl⟩)
    | ok => exact .inr (.inr rfl)

/-- Writing to another block's place. -/
theorem disk_frame_of_dirty {x : β} (hholds : s.Holds i d b) (hdirty : (s.slots i).dirty)
    {d' b' : Nat} (hclean : ∀ j, s.Holds j d' b' → (s.slots j).dirty = false) :
    put2 s.disk d b x d' b' = s.disk d' b' := by
  apply put2_of_ne
  rintro ⟨rfl, rfl⟩
  rw [hclean i hholds] at hdirty
  cases hdirty

/-- A dirty slot is written back, whether or not the write succeeds. -/
theorem writeBack_flushes (hkeys : Keys s) (hused : (s.slots i).used)
    (hdirty : (s.slots i).dirty) (canBlock : Bool) (io : WriteIo β) :
    Flushes s (writeBack s i canBlock io).2 := by
  obtain ⟨d, hholds⟩ := hkeys.holds hused
  rcases writeBack_cases s hholds canBlock io with heq | ⟨left, heq⟩ | heq <;> rw [heq]
  · exact Flushes.refl s
  · exact ⟨fun _ => .inl (SlotKept.refl _), fun _ _ _ h hd => .inl ⟨h, hd⟩,
      fun _ _ hclean => disk_frame_of_dirty hholds hdirty hclean, fun h => h, rfl, rfl⟩
  · refine ⟨?_, ?_, fun _ _ hclean => disk_frame_of_dirty hholds hdirty hclean,
      fun h => h, rfl, rfl⟩
    · intro j
      left
      by_cases hj : j = i
      · subst hj
        rw [slots_setSlot_self]
        exact ⟨rfl, rfl, rfl, rfl, rfl, nofun⟩
      · rw [slots_setSlot_of_ne hj]
        exact SlotKept.refl _
    · intro j d' b' hj hjd
      by_cases hji : j = i
      · subst hji
        obtain ⟨rfl, rfl⟩ := Holds.key_eq hholds hj
        exact .inr (put2_self ..)
      · left
        unfold State.Holds
        rw [slots_setSlot_of_ne hji]
        exact ⟨hj, hjd⟩

/-- A clean, unreferenced slot is dropped. -/
theorem drop_flushes (hfree : (s.slots i).refCount = 0) (hclean : (s.slots i).dirty = false) :
    Flushes s (drop s i) where
  slot j := by
    by_cases hj : j = i
    · subst hj
      right
      unfold drop
      rw [slots_setSlot_self]
      exact ⟨hfree, rfl, hfree⟩
    · left
      unfold drop
      rw [slots_setSlot_of_ne hj]
      exact SlotKept.refl _
  settled j d b hj hjd := by
    have hji : j ≠ i := by
      rintro rfl
      rw [hclean] at hjd
      cases hjd
    left
    unfold drop State.Holds
    rw [slots_setSlot_of_ne hji]
    exact ⟨hj, hjd⟩
  frame _ _ _ := rfl
  started h := h
  pins := rfl
  view := rfl

/-- The slots are set up, when none is used. -/
theorem init_flushes (hkeys : Keys s) (hinit : s.initialized = false) : Flushes s (init s) where
  slot i := by
    have hunused := hkeys.uninit hinit i
    have hfree : (s.slots i).refCount = 0 := by
      by_contra href
      rw [hkeys.pinned i href] at hunused
      cases hunused.symm
    exact .inr ⟨hfree, rfl, rfl⟩
  settled i d b hi _ := by
    have hused := hi.1
    rw [hkeys.uninit hinit i] at hused
    cases hused
  frame _ _ _ := rfl
  started _ := rfl
  pins := rfl
  view := rfl

/-! ## §5. The calls. -/

/-- What every write back of a dirty slot keeps. -/
def KeptByWrites (P : State β → Prop) : Prop :=
  ∀ s i canBlock io, (s.slots i).used → (s.slots i).dirty → P s → P (writeBack s i canBlock io).2

theorem keptByWrites_flushes (hkeys : Keys s) : KeptByWrites (Flushes s) :=
  fun _ _ canBlock io hused hdirty h =>
    h.trans hkeys (writeBack_flushes (h.keys hkeys) hused hdirty canBlock io)

section
variable {P : State β → Prop} (hP : KeptByWrites P)
include hP

theorem syncBlock_rule (h : P s) (dev : Option Nat) (b : Nat) (canBlock : Bool)
    (io : WriteIo β) : P (syncBlock s dev b canBlock io).2 := by
  unfold syncBlock
  split
  · exact h
  split
  · exact h
  rename_i i hfind
  obtain ⟨_, hused, _, _⟩ := findSlot_some hfind
  cases hdirty : (s.slots i).dirty with
  | false => exact h
  | true => exact hP s i canBlock io hused hdirty h

theorem flushBlocks_rule (dev : Option Nat) (canBlock : Bool) (h : P s)
    (blocks : List (Nat × WriteIo β)) : P (flushBlocks dev canBlock s blocks).2 := by
  induction blocks generalizing s with
  | nil => exact h
  | cons head rest ih =>
    obtain ⟨b, io⟩ := head
    have hone := syncBlock_rule hP h dev b canBlock io
    unfold flushBlocks
    split
    · rename_i s₁ heq
      rw [heq] at hone
      exact ih hone
    · rename_i status s₁ _ heq
      rwa [heq] at hone

theorem flushPhases_rule (dev : Option Nat) (canBlock : Bool) (h : P s)
    (phases : List (List (Nat × WriteIo β))) : P (flushPhases dev canBlock s phases).2 := by
  induction phases generalizing s with
  | nil => exact h
  | cons phase rest ih =>
    have hone := flushBlocks_rule hP dev canBlock h phase
    unfold flushPhases
    split
    · exact h
    split
    · rename_i s₁ heq
      rw [heq] at hone
      exact ih hone
    · rename_i status s₁ _ heq
      rwa [heq] at hone

theorem orderedFlush_rule (h : P s) (dev : Option Nat) (phases : List (List (Nat × WriteIo β)))
    (canBlock : Bool) : P (orderedFlush s dev phases canBlock).2 := by
  unfold orderedFlush
  split
  · exact h
  split
  · exact h
  exact flushPhases_rule hP dev canBlock h phases

theorem syncSlot_rule {mine : BufferBlock β → Bool}
    (acc : Status × State β) (i : Nat) (h : P acc.2) : P (syncSlot canBlock io mine acc i).2 := by
  unfold syncSlot
  simp only
  split
  · exact h
  rename_i hskip
  simp only [Bool.or_eq_true, Bool.not_eq_true', not_or, Bool.not_eq_false] at hskip
  split
  · exact h
  exact hP acc.2 i canBlock (io i) hskip.1.1 hskip.2 h

theorem foldl_syncSlot_rule
    {mine : BufferBlock β → Bool} (slots : List Nat) (acc : Status × State β) (h : P acc.2) :
    P (slots.foldl (syncSlot canBlock io mine) acc).2 :=
  slots.foldlRecOn (motive := fun acc => P acc.2) _ h fun acc hacc i _ =>
    syncSlot_rule hP acc i hacc

theorem syncDevice_rule (h : P s) (dev : Option Nat) (canBlock : Bool) (io : Nat → WriteIo β) :
    P (syncDevice s dev canBlock io).2 := by
  unfold syncDevice
  split
  · exact h
  exact foldl_syncSlot_rule hP _ (.success, s) h

end

theorem sync_flushes (hkeys : Keys s) (canBlock : Bool) (io : WriteIo β) :
    Flushes s (sync s i canBlock io).2 := by
  unfold sync
  cases hused : (s.slots i).used with
  | false => exact Flushes.refl s
  | true =>
    cases hdirty : (s.slots i).dirty with
    | false => exact Flushes.refl s
    | true => exact writeBack_flushes hkeys hused hdirty canBlock io

theorem syncBlock_flushes (hkeys : Keys s) (dev : Option Nat) (b : Nat) (canBlock : Bool)
    (io : WriteIo β) : Flushes s (syncBlock s dev b canBlock io).2 :=
  syncBlock_rule (keptByWrites_flushes hkeys) (Flushes.refl s) dev b canBlock io

theorem orderedFlush_flushes (hkeys : Keys s) (dev : Option Nat)
    (phases : List (List (Nat × WriteIo β))) (canBlock : Bool) :
    Flushes s (orderedFlush s dev phases canBlock).2 :=
  orderedFlush_rule (keptByWrites_flushes hkeys) (Flushes.refl s) dev phases canBlock

theorem syncDevice_flushes (hkeys : Keys s) (dev : Option Nat) (canBlock : Bool)
    (io : Nat → WriteIo β) : Flushes s (syncDevice s dev canBlock io).2 :=
  syncDevice_rule (keptByWrites_flushes hkeys) (Flushes.refl s) dev canBlock io

theorem syncAll_flushes (hkeys : Keys s) (canBlock : Bool) (io : Nat → WriteIo β) :
    Flushes s (syncAll s canBlock io).2 :=
  foldl_syncSlot_rule (keptByWrites_flushes hkeys) _ (.success, s) (Flushes.refl s)

theorem invalidateSlot_flushes {dev : Option Nat}
    (acc : Status × State β) (i : Nat) (hkeys : Keys acc.2) :
    Flushes acc.2 (invalidateSlot dev canBlock io acc i).2 := by
  unfold invalidateSlot
  simp only
  split
  · exact Flushes.refl _
  rename_i hskip
  simp only [Bool.or_eq_true, Bool.not_eq_true', bne_iff_ne, not_or, Bool.not_eq_false,
    not_not] at hskip
  split
  · rename_i hdirty
    split
    · exact Flushes.refl _
    have hwrite := writeBack_flushes hkeys hskip.1.1 hdirty canBlock (io i)
    obtain ⟨d, hholds⟩ := hkeys.holds hskip.1.1
    split
    · -- Written back, the slot is clean, and can be dropped.
      rename_i s₁ heq
      have hs1 := writeBack_fst_success (by rw [heq]) hholds
      rw [heq] at hwrite hs1
      refine hwrite.trans hkeys (drop_flushes ?_ ?_)
      · rw [hs1, slots_setSlot_self]
        exact hskip.2
      · rw [hs1, slots_setSlot_self]
    · rename_i status s₁ _ heq
      rw [heq] at hwrite
      exact hwrite
  · rename_i hdirty
    exact drop_flushes hskip.2 (Bool.not_eq_true _ ▸ hdirty)

theorem invalidateDevice_flushes (hkeys : Keys s) (dev : Option Nat) (canBlock : Bool)
    (io : Nat → WriteIo β) : Flushes s (invalidateDevice s dev canBlock io).2 := by
  unfold invalidateDevice
  split
  · exact Flushes.refl s
  refine List.foldlRecOn (motive := Flushes s ∘ Prod.snd) _ _ (Flushes.refl s) ?_
  intro acc h i _
  exact h.trans hkeys (invalidateSlot_flushes acc i (h.keys hkeys))

end BigOS.Fs.Bcache
