/-
  BigOS.Fs.Bcache.Get — what `get` does, and what every event keeps.

  `get` hits, or it takes a victim and reads into its buffer.  The victim is a
  slot that was never used, or an unreferenced one that is clean, if need be
  after its write-back.

  Main results:
    • `pickVictim_spec` — the victim,
    • `GetOutcome`, `get_cases` — the outcomes of `get`,
    • `get_guarded` — protected blocks that are dirty are left alone,
    • `Keeps`, `step_keeps` — what every event but a store keeps.
-/
import BigOS.Fs.Bcache.Flush

namespace BigOS.Fs.Bcache

open Function Flushes List Bool

variable {p : Nat → Bool} {best : Option Nat}

variable {β : Type} {s s' s₁ s₂ : State β} {i d b : Nat} {slots : List Nat}

/-! ## §1. The victim. -/

theorem freeSlot_some (h : freeSlot s = some i) : i < CACHE_BLOCKS ∧ (s.slots i).used = false := by
  unfold freeSlot at h
  have hmem := mem_range.mp (mem_of_find?_eq_some h)
  have hp := List.find?_some h
  simp only [not_eq_true'] at hp
  exact ⟨hmem, hp⟩

theorem freeSlot_none (h : freeSlot s = none) (hi : i < CACHE_BLOCKS) : (s.slots i).used := by
  unfold freeSlot at h
  rw [List.find?_eq_none] at h
  simpa using h i (mem_range.mpr hi)

theorem older_cases (s : State β) (p : Nat → Bool) (best : Option Nat) (i : Nat) :
    older s p best i = best ∨ (p i ∧ older s p best i = some i) := by
  unfold older
  rcases hp : p i with _ | _
  · exact .inl rfl
  simp only [Bool.not_true, Bool.false_eq_true, if_false]
  cases best with
  | none => exact .inr ⟨trivial, rfl⟩
  | some =>
    simp only
    split
    · exact .inr ⟨trivial, rfl⟩
    exact .inl rfl

theorem older_none (h : older s p best i = none) : best = none ∧ p i = false := by
  unfold older at h
  cases hp : p i with
  | false =>
    simp only [hp, Bool.not_false, if_true] at h
    exact ⟨h, rfl⟩
  | true =>
    simp only [hp, Bool.not_true, Bool.false_eq_true, if_false] at h
    cases best with
    | none => cases h
    | some =>
      simp only at h
      split at h <;> exact absurd h (by simp)

/-- The scan, from the slot chosen so far. -/
theorem lru_fold_some (h : slots.foldl (older s p) best = some i) :
    best = some i ∨ (p i ∧ i ∈ slots) := by
  induction slots generalizing best with
  | nil => exact .inl h
  | cons k rest ih =>
    rcases ih h with hbest | ⟨hp, hmem⟩
    · rcases older_cases s p best k with heq | ⟨hp, heq⟩
      · exact .inl (heq.symm.trans hbest)
      · obtain rfl : k = i := Option.some.inj (heq.symm.trans hbest)
        exact .inr ⟨hp, mem_cons_self⟩
    · exact .inr ⟨hp, mem_cons_of_mem k hmem⟩

theorem lru_fold_none (h : slots.foldl (older s p) best = none) :
    best = none ∧ ∀ i ∈ slots, p i = false := by
  induction slots generalizing best with
  | nil => exact ⟨h, fun i hi => absurd hi not_mem_nil⟩
  | cons k rest ih =>
    obtain ⟨hnone, hrest⟩ := ih h
    obtain ⟨hbest, hk⟩ := older_none hnone
    refine ⟨hbest, fun i hi => ?_⟩
    rcases mem_cons.mp hi with rfl | hi
    · exact hk
    · exact hrest i hi

theorem lru_some (h : lru s p = some i) : p i ∧ i < CACHE_BLOCKS := by
  rcases lru_fold_some h with hbest | ⟨hp, hmem⟩
  · cases hbest
  · exact ⟨hp, mem_range.mp hmem⟩

theorem lru_none (h : lru s p = none) (hi : i < CACHE_BLOCKS) : p i = false :=
  (lru_fold_none h).2 i (mem_range.mpr hi)

/-- A slot that `get` may load into: empty, or unreferenced and clean. -/
def Victim (s : State β) (i : Nat) : Prop :=
  i < CACHE_BLOCKS ∧ ((s.slots i).used → (s.slots i).refCount = 0 ∧ (s.slots i).dirty = false)

/-- What `get` promises about the blocks that are dirty and protected. -/
def Guarded (s s' : State β) : Prop :=
  ∀ i d b, s.Holds i d b → (s.slots i).dirty → isProtected s (some d) b →
    s'.slots i = s.slots i ∧ s'.disk d b = s.disk d b

theorem Guarded.refl (s : State β) : Guarded s s := fun _ _ _ _ _ _ => ⟨rfl, rfl⟩

/-- Eviction writes back an unreferenced dirty block that is not protected. -/
theorem writeBack_guarded (hholds : s.Holds i d b)
    (hvictim : isProtected s (some d) b = false) (canBlock : Bool) (io : WriteIo β) :
    Guarded s (writeBack s i canBlock io).2 := by
  intro j d' b' hj _ hguard
  have hkey : ¬(d' = d ∧ b' = b) := by
    rintro ⟨rfl, rfl⟩
    rw [hvictim] at hguard
    cases hguard
  have hji : j ≠ i := by
    rintro rfl
    exact hkey (Holds.key_eq hholds hj)
  rcases writeBack_cases s hholds canBlock io with heq | ⟨left, heq⟩ | heq
  · rw [heq]
    exact ⟨rfl, rfl⟩
  · rw [heq]
    exact ⟨rfl, put2_of_ne hkey⟩
  · rw [heq, slots_setSlot_of_ne hji]
    exact ⟨rfl, put2_of_ne hkey⟩

theorem pickVictim_spec (hkeys : Keys s) (canBlock : Bool) (io : WriteIo β) :
    Flushes s (pickVictim s canBlock io).2 ∧ Guarded s (pickVictim s canBlock io).2 ∧
      (∀ i, (pickVictim s canBlock io).1 = some i → Victim (pickVictim s canBlock io).2 i) ∧
      (∀ i, freeSlot s = some i → pickVictim s canBlock io = (some i, s)) := by
  unfold pickVictim
  cases hfree : freeSlot s with
  | some =>
    obtain ⟨hlt, hunused⟩ := freeSlot_some hfree
    refine ⟨refl s, Guarded.refl s, fun j hj => ?_, fun j hj => ?_⟩
    · rw [← Option.some.inj hj]
      exact ⟨hlt, fun hused => nomatch hunused.symm.trans hused⟩
    · rw [Option.some.inj hj]
  | none =>
    cases hclean : lru s (cleanVictim s) with
    | some =>
      obtain ⟨hp, hlt⟩ := lru_some hclean
      unfold cleanVictim at hp
      simp only [and_eq_true, beq_iff_eq, not_eq_true'] at hp
      refine ⟨refl s, Guarded.refl s, fun j hj => ?_, fun j hj => absurd hj (by simp)⟩
      rw [← Option.some.inj hj]
      exact ⟨hlt, fun _ => hp⟩
    | none =>
      cases hdirty : lru s (dirtyVictim s) with
      | none =>
        exact ⟨refl s, Guarded.refl s, fun j hj => absurd hj (by simp),
          fun j hj => absurd hj (by simp)⟩
      | some i =>
        obtain ⟨hp, hlt⟩ := lru_some hdirty
        unfold dirtyVictim at hp
        simp only [and_eq_true, beq_iff_eq, not_eq_true', and_eq_false_iff] at hp
        have hused := freeSlot_none hfree hlt
        -- No unreferenced slot is clean, so the victim is dirty.
        have hisDirty : (s.slots i).dirty := by
          have hnot := lru_none hclean hlt
          unfold cleanVictim at hnot
          simpa [hp.1] using hnot
        obtain ⟨d, hholds⟩ := hkeys.holds hused
        have hopen : isProtected s (some d) (s.slots i).blockNo = false := by
          rw [← hholds.2.1]
          exact hp.2.resolve_left (by rw [hisDirty]; simp)
        have hflush := writeBack_flushes hkeys hused hisDirty canBlock io
        have hguard := writeBack_guarded hholds hopen canBlock io
        simp only
        split
        · rename_i s₁ heq
          have hs1 := writeBack_fst_success (by rw [heq]) hholds
          rw [heq] at hflush hguard hs1
          refine ⟨hflush, hguard, fun j hj => ?_, fun j hj => absurd hj (by simp)⟩
          rw [← Option.some.inj hj]
          refine ⟨hlt, fun _ => ?_⟩
          rw [hs1, slots_setSlot_self]
          exact ⟨hp.1, rfl⟩
        · rename_i status s₁ _ heq
          rw [heq] at hflush hguard
          exact ⟨hflush, hguard, fun j hj => absurd hj (by simp), fun j hj => absurd hj (by simp)⟩

/-! ## §2. What `get` does. -/

/-- The cache that `get` works in. -/
def ready (s : State β) : State β := if s.initialized then s else init s

theorem ready_flushes (hkeys : Keys s) : Flushes s (ready s) := by
  unfold ready
  cases hinit : s.initialized with
  | true => exact refl s
  | false => exact init_flushes hkeys hinit

/-- Before the cache is set up nothing is in it. -/
theorem ready_slot (hkeys : Keys s) (hused : (s.slots i).used) : ready s = s := by
  unfold ready
  cases hinit : s.initialized with
  | true => rfl
  | false =>
    rw [hkeys.uninit hinit i] at hused
    cases hused

inductive GetOutcome (s : State β) (d b : Nat) (wio : WriteIo β) (rio : ReadIo β) :
    Option Nat × State β → Prop where
  | hit (i : Nat) (h : findSlot (ready s) (some d) b = some i) :
      GetOutcome s d b wio rio (some i, hit (ready s) i)
  | noVictim (h : findSlot (ready s) (some d) b = none)
      (hv : (pickVictim (ready s) true wio).1 = none) :
      GetOutcome s d b wio rio (none, (pickVictim (ready s) true wio).2)
  | failed (i : Nat) (left : Option β) (h : findSlot (ready s) (some d) b = none)
      (hv : (pickVictim (ready s) true wio).1 = some i) (hr : rio = .failed left) :
      GetOutcome s d b wio rio (none, scribble (pickVictim (ready s) true wio).2 i left)
  | loaded (i : Nat) (h : findSlot (ready s) (some d) b = none)
      (hv : (pickVictim (ready s) true wio).1 = some i) (hr : rio = .ok) :
      GetOutcome s d b wio rio (some i, load (pickVictim (ready s) true wio).2 i d b)

theorem get_cases (s : State β) (dev : Option Nat) (b : Nat) (canBlock allocOk : Bool)
    (wio : WriteIo β) (rio : ReadIo β) : get s dev b canBlock allocOk wio rio = (none, s) ∨
      ∃ d, dev = some d ∧ GetOutcome s d b wio rio (get s dev b canBlock allocOk wio rio) := by
  unfold get
  rcases dev with _ | d
  · exact .inl rfl
  rcases canBlock with _ | _
  · exact .inl rfl
  simp only [Bool.not_true, Bool.false_eq_true, if_false]
  split
  · exact .inl rfl
  refine .inr ⟨d, rfl, ?_⟩
  rw [show (if s.initialized then s else init s) = ready s from rfl]
  cases hfind : findSlot (ready s) (some d) b with
  | some i => exact .hit i hfind
  | none =>
    cases hv : pickVictim (ready s) true wio with
    | mk v =>
      cases v with
      | none =>
        have hnone := @GetOutcome.noVictim β s d b wio rio hfind (by rw [hv])
        rwa [hv] at hnone
      | some i =>
        cases rio with
        | failed left =>
          have hf := GetOutcome.failed i left hfind (by rw [hv]) rfl
          rwa [hv] at hf
        | ok =>
          have hl := GetOutcome.loaded i hfind (by rw [hv]) rfl
          rwa [hv] at hl

/-! ## §3. What every event keeps. -/

/-- What is dirty stays or is on its device, the device's contents change only
under a dirty block, and a referenced block stays in its slot. -/
structure Keeps (s s' : State β) : Prop where
  dirty : ∀ i d b, s.Holds i d b → (s.slots i).dirty →
    (s'.Holds i d b ∧ (s'.slots i).dirty ∧ (s'.slots i).data = (s.slots i).data) ∨
      s'.disk d b = (s.slots i).data
  frame : ∀ d b, (∀ i, s.Holds i d b → (s.slots i).dirty = false) → s'.disk d b = s.disk d b
  pinned : ∀ i d b, s.Holds i d b → (s.slots i).refCount ≠ 0 → s'.Holds i d b

theorem Flushes.keeps (h : Flushes s s') : Keeps s s' where
  dirty i d b hholds hdirty := by
    rcases h.settled i d b hholds hdirty with ⟨hh, hd⟩ | hdisk
    · exact .inl ⟨hh, hd, (h.holds hh).1.data⟩
    · exact .inr hdisk
  frame := h.frame
  pinned i d b hholds href := h.holds_pinned hholds href

/-- After a flush the slot `i` changes: it was not used, or it was unreferenced
and clean. -/
theorem Flushes.keeps_of_victim (h : Flushes s s₁) (hv : Victim s₁ i)
    (hslots : ∀ j, j ≠ i → s₂.slots j = s₁.slots j) (hdisk : s₂.disk = s₁.disk) : Keeps s s₂ where
  dirty j d b hholds hdirty := by
    rcases h.settled j d b hholds hdirty with ⟨hh, hd⟩ | hd
    · have hji : j ≠ i := by
        rintro rfl
        rw [(hv.2 hh.1).2] at hd
        cases hd
      left
      unfold State.Holds
      rw [hslots j hji]
      exact ⟨hh, hd, (h.holds hh).1.data⟩
    · right
      rw [hdisk]
      exact hd
  frame d b hclean := by
    rw [hdisk]
    exact h.frame d b hclean
  pinned j d b hholds href := by
    have hh := h.holds_pinned hholds href
    have hji : j ≠ i := by
      rintro rfl
      have hfree := (hv.2 hh.1).1
      rw [(h.kept href).refCount] at hfree
      exact href hfree
    unfold State.Holds
    rw [hslots j hji]
    exact hh

/-- After a flush one slot changes, but neither its block nor its contents, and it
does not become clean. -/
theorem Flushes.keeps_of_touch (h : Flushes s s₁) {slot : BufferBlock β}
    (hs : s₂.slots = update s₁.slots i slot) (hdisk : s₂.disk = s₁.disk)
    (hused : slot.used = (s₁.slots i).used) (hdev : slot.dev = (s₁.slots i).dev)
    (hblock : slot.blockNo = (s₁.slots i).blockNo) (hdata : slot.data = (s₁.slots i).data)
    (hdirty : (s₁.slots i).dirty → slot.dirty) : Keeps s s₂ := by
  have hall : ∀ j, (s₂.slots j).used = (s₁.slots j).used ∧ (s₂.slots j).dev = (s₁.slots j).dev ∧
      (s₂.slots j).blockNo = (s₁.slots j).blockNo ∧ (s₂.slots j).data = (s₁.slots j).data ∧
      ((s₁.slots j).dirty = true → (s₂.slots j).dirty = true) := by
    intro j
    rw [hs]
    by_cases hj : j = i
    · subst hj
      rw [update_self]
      exact ⟨hused, hdev, hblock, hdata, hdirty⟩
    · rw [update_of_ne hj]
      exact ⟨rfl, rfl, rfl, rfl, fun hd => hd⟩
  have hholds : ∀ j d b, s₁.Holds j d b → s₂.Holds j d b := fun j d b hj =>
    ⟨(hall j).1.trans hj.1, (hall j).2.1.trans hj.2.1, (hall j).2.2.1.trans hj.2.2⟩
  refine ⟨?_, ?_, fun j d b hj href => hholds j d b (h.holds_pinned hj href)⟩
  · intro j d b hj hjd
    rcases h.settled j d b hj hjd with ⟨hh, hd⟩ | hd
    · exact .inl ⟨hholds j d b hh, (hall j).2.2.2.2 hd, (hall j).2.2.2.1.trans (h.holds hh).1.data⟩
    · rw [hdisk]
      exact .inr hd
  · intro d b hclean
    rw [hdisk]
    exact h.frame d b hclean

theorem get_keeps (hkeys : Keys s) (dev : Option Nat) (b : Nat) (canBlock allocOk : Bool)
    (wio : WriteIo β) (rio : ReadIo β) : Keeps s (get s dev b canBlock allocOk wio rio).2 := by
  have hready := ready_flushes hkeys
  obtain ⟨hpick, _, hvictim, _⟩ := pickVictim_spec (hready.keys hkeys) true wio
  have hboth := hready.trans hkeys hpick
  rcases get_cases s dev b canBlock allocOk wio rio with heq | ⟨d, _, hout⟩
  · rw [heq]
    exact (refl s).keeps
  generalize get s dev b canBlock allocOk wio rio = result at hout
  cases hout with
  | hit => exact hready.keeps_of_touch rfl rfl rfl rfl rfl rfl (fun hd => hd)
  | noVictim => exact hboth.keeps
  | failed i left _ hv =>
    apply hboth.keeps_of_victim (hvictim i hv)
    · intro j hj
      cases left with
      | none => rfl
      | some => exact slots_setSlot_of_ne hj
    · cases left <;> rfl
  | loaded i _ hv =>
    exact hboth.keeps_of_victim (hvictim i hv) (fun j hj => slots_setSlot_of_ne hj) rfl

/-- Eviction leaves the dirty blocks that are protected, and their devices. -/
theorem get_guarded (hkeys : Keys s) (dev : Option Nat) (b' : Nat) (canBlock allocOk : Bool)
    (wio : WriteIo β) (rio : ReadIo β) (hholds : s.Holds i d b)
    (hdirty : (s.slots i).dirty) (hguard : isProtected s (some d) b) :
    let s' := (get s dev b' canBlock allocOk wio rio).2
    s'.Holds i d b ∧ (s'.slots i).dirty = true ∧ (s'.slots i).data = (s.slots i).data ∧
      s'.disk d b = s.disk d b := by
  have hready : ready s = s := ready_slot hkeys hholds.1
  obtain ⟨_, hpick, hvictim, _⟩ := pickVictim_spec hkeys true wio
  obtain ⟨hslot, hdisk⟩ := hpick i d b hholds hdirty hguard
  -- The victim is clean, so it is another slot.
  have hother : ∀ j, (pickVictim s true wio).1 = some j → i ≠ j := by
    rintro j hj rfl
    have hclean := ((hvictim i hj).2 (by rw [hslot]; exact hholds.1)).2
    rw [hslot, hdirty] at hclean
    cases hclean.symm
  have hsame : ∀ s₂ : State β, s₂.slots i = s.slots i → s₂.disk d b = s.disk d b →
      s₂.Holds i d b ∧ (s₂.slots i).dirty = true ∧ (s₂.slots i).data = (s.slots i).data ∧
        s₂.disk d b = s.disk d b := by
    intro s₂ hs hd
    unfold State.Holds
    rw [hs]
    exact ⟨hholds, hdirty, rfl, hd⟩
  rcases get_cases s dev b' canBlock allocOk wio rio with heq | ⟨d', _, hout⟩
  · rw [heq]
    exact hsame s rfl rfl
  generalize get s dev b' canBlock allocOk wio rio = result at hout
  cases hout with
  | hit j =>
    simp only [hready]
    by_cases hij : i = j
    · subst hij
      unfold hit State.Holds
      rw [slots_setSlot_self]
      exact ⟨hholds, hdirty, rfl, rfl⟩
    · exact hsame _ (slots_setSlot_of_ne hij) rfl
  | noVictim =>
    simp only [hready]
    exact hsame _ hslot hdisk
  | failed j left _ hv =>
    simp only [hready] at hv ⊢
    cases left with
    | none => exact hsame _ hslot hdisk
    | some => exact hsame _ ((slots_setSlot_of_ne (hother j hv)).trans hslot) hdisk
  | loaded j _ hv =>
    simp only [hready] at hv ⊢
    exact hsame _ ((slots_setSlot_of_ne (hother j hv)).trans hslot) hdisk

/-- The table of protected blocks is no part of the slots. -/
theorem protectBlocks_same (s : State β) (dev : Option Nat) (blocks : List Nat) :
    ∃ guards, (protectBlocks s dev blocks).2 = { s with guards := guards } := by
  induction blocks generalizing s with
  | nil =>
    unfold protectBlocks
    split <;> exact ⟨s.guards, rfl⟩
  | cons b rest ih =>
    unfold protectBlocks
    split
    · exact ⟨s.guards, rfl⟩
    split
    · exact ih s
    split
    · exact ⟨s.guards, rfl⟩
    obtain ⟨guards, hg⟩ := ih _
    exact ⟨guards, hg⟩

theorem unprotectBlocks_same (s : State β) (dev : Option Nat) (blocks : List Nat) :
    ∃ guards, unprotectBlocks s dev blocks = { s with guards := guards } := by
  induction blocks generalizing s with
  | nil => exact ⟨s.guards, rfl⟩
  | cons b rest ih =>
    unfold unprotectBlocks
    split
    · exact ⟨s.guards, rfl⟩
    split
    · exact ih s
    obtain ⟨guards, hg⟩ := ih _
    exact ⟨guards, hg⟩

/-- Every event but a store into the slot in question. -/
theorem step_keeps (hkeys : Keys s) (e : Event β) (hstore : ∀ i x, e ≠ .store i x) :
    Keeps s (step s e) := by
  have hsame : ∀ guards, Keeps s { s with guards := guards } := fun _ =>
    ⟨fun _ _ _ h hd => .inl ⟨h, hd, rfl⟩, fun _ _ _ => rfl, fun _ _ _ h _ => h⟩
  cases e with
  | get dev b canBlock allocOk wio rio => exact get_keeps hkeys dev b canBlock allocOk wio rio
  | put =>
    simp only [step, put]
    split
    · exact (refl s).keeps
    exact (refl s).keeps_of_touch rfl rfl rfl rfl rfl rfl (fun hd => hd)
  | markDirty =>
    simp only [step, markDirty]
    split
    · exact (refl s).keeps
    exact (refl s).keeps_of_touch rfl rfl rfl rfl rfl rfl (fun _ => rfl)
  | store i x => exact absurd rfl (hstore i x)
  | sync i canBlock io => exact (sync_flushes hkeys canBlock io).keeps
  | syncBlock dev b canBlock io => exact (syncBlock_flushes hkeys dev b canBlock io).keeps
  | orderedFlush dev phases canBlock =>
    exact (orderedFlush_flushes hkeys dev phases canBlock).keeps
  | protect dev blocks =>
    obtain ⟨guards, hg⟩ := protectBlocks_same s dev blocks
    simp only [step, hg]
    exact hsame guards
  | unprotect dev blocks =>
    obtain ⟨guards, hg⟩ := unprotectBlocks_same s dev blocks
    simp only [step, hg]
    exact hsame guards
  | syncDevice dev canBlock io => exact (syncDevice_flushes hkeys dev canBlock io).keeps
  | syncAll canBlock io => exact (syncAll_flushes hkeys canBlock io).keeps
  | invalidateDevice dev canBlock io =>
    exact (invalidateDevice_flushes hkeys dev canBlock io).keeps

end BigOS.Fs.Bcache
