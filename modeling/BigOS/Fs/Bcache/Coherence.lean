/-
  BigOS.Fs.Bcache.Coherence — what a `get` returns.

  A hit returns what the users of the block stored last, or what the device held
  when it was loaded.  That fails after one read error: `get` reads into the
  buffer of its victim before it changes the victim's key, so a failed read that
  leaves bytes behind puts them under the key of the block that was there, and
  the next `get` of that block is a hit on them.

  Main results:
    • `Regular`, `step_inv`, `run_inv` — when buffers stay true to their blocks,
    • `buffer_cache_coherent` — what holds in a run of regular events,
    • `failed_read_poisons_victim` — a hit on the bytes of another block.
-/
import BigOS.Fs.Bcache.Get

namespace BigOS.Fs.Bcache

open Function

variable {β : Type} {s s' s₁ s₂ : State β} {i d b : Nat} {wio : WriteIo β} {dev : Option Nat}
  {rio : ReadIo β}

/-! ## §1. Buffers stay true to their blocks. -/

/-- Slots count their pins, and hold what the users of their blocks know. -/
structure Inv (s : State β) : Prop extends Keys s where
  pins : ∀ i, s.pins i = (s.slots i).refCount
  data : ∀ i d b, s.Holds i d b → (s.slots i).data = s.view d b

/-- A hit does not wrap the reference count, and a read that fails with bytes left
behind finds a slot that was never used. -/
def Regular (s : State β) : Event β → Prop
  | .get dev b _ _ _ rio =>
    (∀ i, findSlot s dev b = some i → (s.slots i).refCount < 2 ^ 32 - 1) ∧
      (∀ x, rio = .failed (some x) → (findSlot s dev b).isSome ∨ (freeSlot s).isSome)
  | _ => True

theorem Flushes.inv (h : Flushes s s') (hinv : Inv s) : Inv s' where
  toKeys := h.keys hinv.toKeys
  pins i := by
    rw [h.pins, hinv.pins]
    rcases h.slot i with hk | hd
    · exact hk.refCount.symm
    · exact hd.free.trans hd.refCount.symm
  data i d b hholds := by
    obtain ⟨hk, hholds0⟩ := h.holds hholds
    rw [hk.data, h.view]
    exact hinv.data i d b hholds0

section

variable (hinv : Inv s) {slot : BufferBlock β}

include hinv

/-- One slot changes, but not its block. -/
theorem Inv.change (hs : s'.slots = update s.slots i slot)
    (hinit : s'.initialized = s.initialized) (hpins : s'.pins = update s.pins i slot.refCount)
    (hkey : slot.used = (s.slots i).used ∧ slot.dev = (s.slots i).dev ∧
      slot.blockNo = (s.slots i).blockNo) (hpinned : slot.refCount ≠ 0 → slot.used)
    (hdata : ∀ j d b, s.Holds j d b → (s'.slots j).data = s'.view d b) : Inv s' := by
  have hall : ∀ j, ((s'.slots j).used = (s.slots j).used ∧ (s'.slots j).dev = (s.slots j).dev ∧
      (s'.slots j).blockNo = (s.slots j).blockNo) ∧
      ((s'.slots j).refCount ≠ 0 → (s'.slots j).used = true) ∧
      s'.pins j = (s'.slots j).refCount := by
    intro j
    rw [hs, hpins]
    by_cases hj : j = i
    · subst hj
      rw [update_self, update_self]
      exact ⟨hkey, hpinned, rfl⟩
    · rw [update_of_ne hj, update_of_ne hj]
      exact ⟨⟨rfl, rfl, rfl⟩, hinv.pinned j, hinv.pins j⟩
  have hholds : ∀ j d b, s'.Holds j d b → s.Holds j d b := by
    intro j d b hj
    obtain ⟨⟨hused, hdev, hblock⟩, _⟩ := hall j
    exact ⟨hused.symm.trans hj.1, hdev.symm.trans hj.2.1, hblock.symm.trans hj.2.2⟩
  refine ⟨⟨?_, ?_, ?_, fun j => (hall j).2.1, ?_⟩, fun j => (hall j).2.2,
    fun j d b hj => hdata j d b (hholds j d b hj)⟩
  · exact fun j k d b hj hk => hinv.unique j k d b (hholds j d b hj) (hholds k d b hk)
  · intro j hj
    rw [(hall j).1.2.1]
    exact hinv.device j ((hall j).1.1.symm.trans hj)
  · exact fun j hj => hinv.range j ((hall j).1.1.symm.trans hj)
  · exact fun hi j => (hall j).1.1.trans (hinv.uninit (hinit.symm.trans hi) j)

/-- One slot changes in nothing but its references, its dirt and its age. -/
theorem Inv.touch (hs : s'.slots = update s.slots i slot) (hview : s'.view = s.view)
    (hinit : s'.initialized = s.initialized) (hpins : s'.pins = update s.pins i slot.refCount)
    (hkey : slot.used = (s.slots i).used ∧ slot.dev = (s.slots i).dev ∧
      slot.blockNo = (s.slots i).blockNo) (hdata : slot.data = (s.slots i).data)
    (hpinned : slot.refCount ≠ 0 → slot.used) : Inv s' := by
  refine hinv.change hs hinit hpins hkey hpinned (fun j d b hj => ?_)
  rw [hs, hview, ← hinv.data j d b hj]
  by_cases hji : j = i
  · rw [hji, update_self, hdata]
  · rw [update_of_ne hji]

theorem Inv.pins_same : s.pins = update s.pins i (s.slots i).refCount := by
  rw [← hinv.pins, update_eq_self]

theorem Inv.hit (hused : (s.slots i).used)
    (hwrap : (s.slots i).refCount < 2 ^ 32 - 1) : Inv (hit s i) := by
  have hcount : ((s.slots i).refCount + 1) % 2 ^ 32 = s.pins i + 1 := by
    rw [hinv.pins, Nat.mod_eq_of_lt (by omega)]
  refine hinv.touch (i := i) rfl rfl rfl ?_ ⟨rfl, rfl, rfl⟩ rfl (fun _ => hused)
  show update s.pins i (s.pins i + 1) = update s.pins i (((s.slots i).refCount + 1) % 2 ^ 32)
  rw [hcount]

theorem Inv.put : Inv (put s i) := by
  unfold Bcache.put
  split
  · exact hinv
  · rename_i href
    refine hinv.touch (i := i) rfl rfl rfl ?_ ⟨rfl, rfl, rfl⟩ rfl (fun _ => hinv.pinned i href)
    show update s.pins i (s.pins i - 1) = update s.pins i ((s.slots i).refCount - 1)
    rw [hinv.pins]

theorem Inv.markDirty : Inv (markDirty s i) := by
  unfold Bcache.markDirty
  split
  · exact hinv
  · exact hinv.touch rfl rfl rfl hinv.pins_same ⟨rfl, rfl, rfl⟩ rfl (hinv.pinned i)

/-- The buffer of an empty slot may hold anything. -/
theorem Inv.scribble_unused (hunused : (s.slots i).used = false) (x : β) :
    Inv (s.setSlot i { s.slots i with data := x }) := by
  refine hinv.change rfl rfl hinv.pins_same ⟨rfl, rfl, rfl⟩ (hinv.pinned i) fun j d b hj => ?_
  have hne : j ≠ i := by
    rintro rfl
    cases hunused.symm.trans hj.1
  rw [slots_setSlot_of_ne hne]
  exact hinv.data j d b hj

/-- A block that is in no slot is loaded. -/
theorem Inv.load (hvictim : Victim s i) (hinit : s.initialized)
    (hmiss : ∀ j, ¬s.Holds j d b) : Inv (load s i d b) := by
  -- A slot of the new state is the loaded one, or another one as it was.
  have hholds : ∀ j d' b', (Bcache.load s i d b).Holds j d' b' →
      (j = i ∧ d' = d ∧ b' = b) ∨ (j ≠ i ∧ s.Holds j d' b' ∧ ¬(d' = d ∧ b' = b)) := by
    intro j d' b' hj
    by_cases hji : j = i
    · subst hji
      unfold Bcache.load State.Holds at hj
      rw [slots_setSlot_self] at hj
      exact .inl ⟨rfl, (Option.some.inj hj.2.1).symm, hj.2.2.symm⟩
    · unfold Bcache.load State.Holds at hj
      rw [slots_setSlot_of_ne hji] at hj
      refine .inr ⟨hji, hj, ?_⟩
      rintro ⟨rfl, rfl⟩
      exact hmiss j hj
  refine ⟨⟨?_, ?_, ?_, ?_, ?_⟩, ?_, ?_⟩
  · intro j k d' b' hj hk
    rcases hholds j d' b' hj with ⟨rfl, hd, hb⟩ | ⟨_, hj', hne⟩
    · rcases hholds k d' b' hk with ⟨rfl, _, _⟩ | ⟨_, _, hne⟩
      · rfl
      · exact absurd ⟨hd, hb⟩ hne
    · rcases hholds k d' b' hk with ⟨_, hd, hb⟩ | ⟨_, hk', _⟩
      · exact absurd ⟨hd, hb⟩ hne
      · exact hinv.unique j k d' b' hj' hk'
  · exact (forall_update_iff s.slots (p := fun _ x => x.used = true → ∃ d, x.dev = some d)).mpr
      ⟨fun _ => ⟨d, rfl⟩, fun j _ => hinv.device j⟩
  · exact (forall_update_iff s.slots (p := fun j x => x.used = true → j < CACHE_BLOCKS)).mpr
      ⟨fun _ => hvictim.1, fun j _ => hinv.range j⟩
  · exact (forall_update_iff s.slots (p := fun _ x => x.refCount ≠ 0 → x.used = true)).mpr
      ⟨fun _ => rfl, fun j _ => hinv.pinned j⟩
  · intro hfalse
    cases hfalse.symm.trans hinit
  · intro j
    show update s.pins i 1 j = _
    unfold Bcache.load
    by_cases hji : j = i
    · subst hji
      rw [update_self, slots_setSlot_self]
    · rw [update_of_ne hji, slots_setSlot_of_ne hji]
      exact hinv.pins j
  · intro j d' b' hj
    show _ = put2 s.view d b (s.disk d b) d' b'
    rcases hholds j d' b' hj with ⟨rfl, rfl, rfl⟩ | ⟨hji, hj', hne⟩
    · unfold Bcache.load
      rw [put2_self, slots_setSlot_self]
    · rw [put2_of_ne hne]
      unfold Bcache.load
      rw [slots_setSlot_of_ne hji]
      exact hinv.data j d' b' hj'

end

theorem store_of_pinned (hpin : s.pins i ≠ 0) (hholds : s.Holds i d b) (x : β) : store s i x =
      { s.setSlot i { s.slots i with data := x } with view := put2 s.view d b x } := by
  obtain ⟨_, hd, rfl⟩ := hholds
  unfold store
  rw [if_neg hpin]
  simp only [hd]

/-- A user stores into the buffer of a block. -/
theorem Inv.store (hinv : Inv s) (x : β) : Inv (store s i x) := by
  by_cases hpin : s.pins i = 0
  · unfold Bcache.store
    rw [if_pos hpin]
    exact hinv
  obtain ⟨d, hi⟩ := hinv.holds (hinv.pinned i (hinv.pins i ▸ hpin))
  rw [store_of_pinned hpin hi]
  refine hinv.change rfl rfl hinv.pins_same ⟨rfl, rfl, rfl⟩ (hinv.pinned i) fun j d' b' hj => ?_
  show ((s.setSlot i _).slots j).data = put2 s.view d (s.slots i).blockNo x d' b'
  by_cases hji : j = i
  · subst hji
    obtain ⟨rfl, rfl⟩ := Holds.key_eq hi hj
    rw [put2_self, slots_setSlot_self]
  · rw [slots_setSlot_of_ne hji, put2_of_ne]
    · exact hinv.data j d' b' hj
    · rintro ⟨rfl, rfl⟩
      exact hji (hinv.unique j i _ _ hj hi)

theorem Inv.guards (hinv : Inv s) (guards : Nat → ProtectedBlock) :
    Inv { s with guards := guards } :=
  ⟨⟨hinv.unique, hinv.device, hinv.range, hinv.pinned, hinv.uninit⟩, hinv.pins, hinv.data⟩

/-- A free slot stays one when the cache is set up. -/
theorem freeSlot_ready (hkeys : Keys s) (h : (freeSlot s).isSome) :
    ∃ j, freeSlot (ready s) = some j := by
  obtain ⟨j, hj⟩ := Option.isSome_iff_exists.mp h
  obtain ⟨hlt, hunused⟩ := freeSlot_some hj
  cases hfree : freeSlot (ready s) with
  | some k => exact ⟨k, rfl⟩
  | none =>
    have hused := freeSlot_none hfree hlt
    rcases (ready_flushes hkeys).slot j with hk | hd
    · rw [hk.used, hunused] at hused
      cases hused
    · rw [hd.used] at hused
      cases hused

theorem findSlot_ready (hkeys : Keys s) (h : findSlot (ready s) dev b = some i) : ready s = s := by
  obtain ⟨_, hused, _, _⟩ := findSlot_some h
  rcases (ready_flushes hkeys).slot i with hk | hd
  · exact ready_slot hkeys (hk.used.symm.trans hused)
  · rw [hd.used] at hused
    cases hused

theorem get_inv (hinv : Inv s) {canBlock allocOk : Bool}
    (hreg : Regular s (.get dev b canBlock allocOk wio rio)) :
    Inv (get s dev b canBlock allocOk wio rio).2 := by
  have hready := ready_flushes hinv.toKeys
  have hkeys1 := hready.keys hinv.toKeys
  obtain ⟨hpick, _, hvictim, hfree⟩ := pickVictim_spec hkeys1 true wio
  have hinv2 : Inv (pickVictim (ready s) true wio).2 := hpick.inv (hready.inv hinv)
  rcases get_cases s dev b canBlock allocOk wio rio with heq | ⟨d, rfl, hout⟩
  · rw [heq]
    exact hinv
  generalize get s (some d) b canBlock allocOk wio rio = result at hout
  cases hout with
  | hit i h =>
    have heq := findSlot_ready hinv.toKeys h
    rw [heq] at h ⊢
    exact hinv.hit (findSlot_some h).2.1 (hreg.1 i h)
  | noVictim => exact hinv2
  | failed i left h hv hr =>
    cases left with
    | none => exact hinv2
    | some x =>
      have hmiss : (findSlot s (some d) b).isSome = false := by
        cases hfind : findSlot s (some d) b with
        | none => rfl
        | some =>
          rw [ready_slot hinv.toKeys (findSlot_some hfind).2.1, hfind] at h
          cases h
      have hsome : (freeSlot s).isSome :=
        (hreg.2 x hr).resolve_left (by rw [hmiss]; exact Bool.false_ne_true)
      obtain ⟨j, hj⟩ := freeSlot_ready hinv.toKeys hsome
      rw [hfree j hj] at hv hinv2 ⊢
      rw [← Option.some.inj hv]
      exact Inv.scribble_unused hinv2 (freeSlot_some hj).2 x
  | loaded i h hv =>
    have hready : (ready s).initialized := by
      unfold ready
      split
      · assumption
      · rfl
    apply hinv2.load (hvictim i hv) (hpick.started hready)
    exact fun j hj => findSlot_none h hkeys1 j (hpick.holds hj).2

/-- One regular event. -/
theorem step_inv {e : Event β} (hinv : Inv s) (hreg : Regular s e) : Inv (step s e) := by
  have hkeys := hinv.toKeys
  cases e with
  | get => exact get_inv hinv hreg
  | put => exact hinv.put
  | markDirty => exact hinv.markDirty
  | store i x => exact hinv.store x
  | sync i canBlock io => exact (sync_flushes hkeys canBlock io).inv hinv
  | syncBlock dev b canBlock io => exact (syncBlock_flushes hkeys dev b canBlock io).inv hinv
  | orderedFlush dev phases canBlock =>
    exact (orderedFlush_flushes hkeys dev phases canBlock).inv hinv
  | protect dev blocks =>
    obtain ⟨guards, hg⟩ := protectBlocks_same s dev blocks
    simp only [step, hg]
    exact hinv.guards guards
  | unprotect dev blocks =>
    obtain ⟨guards, hg⟩ := unprotectBlocks_same s dev blocks
    simp only [step, hg]
    exact hinv.guards guards
  | syncDevice dev canBlock io => exact (syncDevice_flushes hkeys dev canBlock io).inv hinv
  | syncAll canBlock io => exact (syncAll_flushes hkeys canBlock io).inv hinv
  | invalidateDevice dev canBlock io =>
    exact (invalidateDevice_flushes hkeys dev canBlock io).inv hinv

theorem run_inv {events : List (Event β)} (hinv : Inv s) (hreg : Always Regular s events) :
    Inv (run s events) := by
  induction events generalizing s with
  | nil => exact hinv
  | cons e events ih => exact ih (step_inv hinv hreg.1) hreg.2

theorem boot_inv (disk : Nat → Nat → β) (pages : Nat → β) : Inv (State.boot disk pages) where
  unique _ _ _ _ hi _ := nomatch hi.1
  device _ hused := nomatch hused
  range _ hused := nomatch hused
  pinned _ href := absurd rfl href
  uninit _ _ := rfl
  pins _ := rfl
  data _ _ _ hi := nomatch hi.1

/-! ## §2. Coherence. -/

/-- What the cache promises in a state, about every next call. -/
structure Coherent (s : State β) : Prop where
  unique : ∀ i j d b, s.Holds i d b → s.Holds j d b → i = j
  /-- A hit returns what was stored last, or loaded. -/
  hit : ∀ d b i allocOk wio rio, findSlot s (some d) b = some i →
    (get s (some d) b true allocOk wio rio).1 = some i ∧
      ((get s (some d) b true allocOk wio rio).2.slots i).data = s.view d b
  /-- A block that is loaded has the device's contents. -/
  miss : ∀ d b i canBlock allocOk wio rio, findSlot s (some d) b = none →
    (get s (some d) b canBlock allocOk wio rio).1 = some i →
      ((get s (some d) b canBlock allocOk wio rio).2.slots i).data = s.disk d b
  /-- What is dirty stays in its slot, or is on its device. -/
  dirty : ∀ e i d b, (∀ x, e ≠ .store i x) → s.Holds i d b → (s.slots i).dirty →
    ((step s e).Holds i d b ∧ ((step s e).slots i).dirty ∧
      ((step s e).slots i).data = (s.slots i).data) ∨ (step s e).disk d b = (s.slots i).data
  /-- The contents of a device change only under a dirty block. -/
  frame : ∀ e d b, (∀ i, s.Holds i d b → (s.slots i).dirty = false) →
    (step s e).disk d b = s.disk d b
  pinned : ∀ e i d b, s.Holds i d b → s.pins i ≠ 0 → (step s e).Holds i d b
  /-- Eviction does not write a protected block that is dirty. -/
  guarded : ∀ dev b' canBlock allocOk wio rio i d b, s.Holds i d b →
    (s.slots i).dirty → isProtected s (some d) b →
    (get s dev b' canBlock allocOk wio rio).2.Holds i d b ∧
      ((get s dev b' canBlock allocOk wio rio).2.slots i).dirty ∧
      (get s dev b' canBlock allocOk wio rio).2.disk d b = s.disk d b

theorem get_hit {allocOk : Bool} (hkeys : Keys s) (h : findSlot s (some d) b = some i) :
    get s (some d) b true allocOk wio rio = (some i, hit s i) := by
  have hinit : s.initialized := by
    rw [← Bool.not_eq_false]
    intro hfalse
    have hused := (findSlot_some h).2.1
    rw [hkeys.uninit hfalse i] at hused
    cases hused
  unfold get
  simp only [hinit, Bool.not_true, Bool.false_and, Bool.false_eq_true, if_false, if_true]
  rw [h]

/-- Storing through one slot leaves the others, and the devices. -/
theorem Inv.store_frame (hinv : Inv s) (i : Nat) (x : β) :
    (Bcache.store s i x).disk = s.disk ∧ (∀ j, j ≠ i → (Bcache.store s i x).slots j = s.slots j) ∧
      (∀ j d b, s.Holds j d b → (Bcache.store s i x).Holds j d b) := by
  by_cases hpin : s.pins i = 0
  · unfold Bcache.store
    rw [if_pos hpin]
    exact ⟨rfl, fun _ _ => rfl, fun _ _ _ h => h⟩
  obtain ⟨d, hi⟩ := hinv.holds (hinv.pinned i (hinv.pins i ▸ hpin))
  rw [store_of_pinned hpin hi]
  refine ⟨rfl, fun j hj => slots_setSlot_of_ne hj, fun j d b h => ?_⟩
  unfold State.Holds
  by_cases hj : j = i
  · subst hj
    simp only [slots_setSlot_self]
    exact h
  · simp only [slots_setSlot_of_ne hj]
    exact h

theorem Inv.coherent (hinv : Inv s) : Coherent s where
  unique := hinv.unique
  hit d b i allocOk wio rio h := by
    rw [get_hit hinv.toKeys h]
    refine ⟨rfl, ?_⟩
    obtain ⟨_, hused, hdev, hblock⟩ := findSlot_some h
    rw [← hinv.data i d b ⟨hused, hdev, hblock⟩]
    unfold Bcache.hit
    rw [slots_setSlot_self]
  miss d b i canBlock allocOk wio rio hfind hsome := by
    have hready := ready_flushes hinv.toKeys
    have hkeys1 := hready.keys hinv.toKeys
    have hpick := (pickVictim_spec hkeys1 true wio).1
    have hdisk : (pickVictim (ready s) true wio).2.disk d b = s.disk d b := by
      apply (hready.trans hinv.toKeys hpick).frame
      exact fun j hj => absurd hj (findSlot_none hfind hinv.toKeys j)
    rcases get_cases s (some d) b canBlock allocOk wio rio with heq | ⟨d', hd', hout⟩
    · rw [heq] at hsome
      cases hsome
    obtain rfl : d = d' := Option.some.inj hd'
    generalize get s (some d) b canBlock allocOk wio rio = result at hout hsome
    cases hout with
    | hit j h =>
      rw [findSlot_ready hinv.toKeys h, hfind] at h
      cases h
    | noVictim => cases hsome
    | failed => cases hsome
    | loaded =>
      rw [← Option.some.inj hsome, ← hdisk]
      unfold Bcache.load
      rw [slots_setSlot_self]
  dirty e i d b hstore hholds hd := by
    by_cases hother : ∀ j x, e ≠ .store j x
    · exact (step_keeps hinv.toKeys e hother).dirty i d b hholds hd
    simp only [not_forall, not_not] at hother
    obtain ⟨j, x, rfl⟩ := hother
    have hij : i ≠ j := fun heq => hstore x (heq ▸ rfl)
    obtain ⟨_, hslots, hkeep⟩ := hinv.store_frame j x
    left
    refine ⟨hkeep i d b hholds, ?_, ?_⟩
    · simp only [step, hslots i hij]
      exact hd
    · simp only [step, hslots i hij]
  frame e d b hclean := by
    by_cases hother : ∀ j x, e ≠ .store j x
    · exact (step_keeps hinv.toKeys e hother).frame d b hclean
    · simp only [not_forall, not_not] at hother
      obtain ⟨j, x, rfl⟩ := hother
      simp only [step, (hinv.store_frame j x).1]
  pinned e i d b hholds hpin := by
    have href : (s.slots i).refCount ≠ 0 := hinv.pins i ▸ hpin
    by_cases hother : ∀ j x, e ≠ .store j x
    · exact (step_keeps hinv.toKeys e hother).pinned i d b hholds href
    · simp only [not_forall, not_not] at hother
      obtain ⟨j, x, rfl⟩ := hother
      exact (hinv.store_frame j x).2.2 i d b hholds
  guarded dev b' canBlock allocOk wio rio i d b hholds hd hguard := by
    obtain ⟨hh, hdirty, _, hdisk⟩ :=
      get_guarded hinv.toKeys dev b' canBlock allocOk wio rio hholds hd hguard
    exact ⟨hh, hdirty, hdisk⟩

/-- In every run of regular events, over any devices and with any transfers
failing, the cache is coherent. -/
theorem buffer_cache_coherent (disk : Nat → Nat → β) (pages : Nat → β)
    (events : List (Event β)) (h : Always Regular (State.boot disk pages) events) :
    Coherent (run (State.boot disk pages) events) :=
  (run_inv (boot_inv disk pages) h).coherent

/-- Block `b` of every device holds `b + 100`. -/
def numbered : State Nat := State.boot (fun _ b => b + 100) (fun _ => 0)

/-- A block is loaded, and a read of another fails with bytes left behind, while
there is a free slot. -/
def failedRead : List (Event Nat) :=
  [.get (some 0) 5 true true .ok .ok, .get (some 0) 6 true true .ok (.failed (some 7))]

theorem buffer_cache_coherent_failed_read :
    Always Regular numbered failedRead ∧ Coherent (run numbered failedRead) := by
  have hreg : Always Regular numbered failedRead := by
    have hempty : findSlot numbered (some 0) 5 = none := by decide +kernel
    have hmiss : findSlot (step numbered (.get (some 0) 5 true true .ok .ok)) (some 0) 6 = none :=
      by decide +kernel
    have hfree : (freeSlot (step numbered (.get (some 0) 5 true true .ok .ok))).isSome :=
      by decide +kernel
    refine ⟨⟨?_, ?_⟩, ⟨?_, ?_⟩, trivial⟩
    · intro i hi
      cases hempty.symm.trans hi
    · intro x hx
      cases hx
    · intro i hi
      cases hmiss.symm.trans hi
    · intro x _
      exact .inr hfree
  exact ⟨hreg, buffer_cache_coherent _ _ _ hreg⟩

/-- Every slot is filled with a block and released; the read of one more fails
and leaves bytes behind. -/
def poisoned : List (Event Nat) :=
  (List.range CACHE_BLOCKS).flatMap (fun b => [.get (some 0) b true true .ok .ok, .put b]) ++
    [.get (some 0) CACHE_BLOCKS true true .ok (.failed (some 7))]

/-- Nothing was ever stored, and a hit on the first block returns bytes that are
not the device's. -/
theorem failed_read_poisons_victim : findSlot (run numbered poisoned) (some 0) 0 = some 0 ∧
      (get (run numbered poisoned) (some 0) 0 true true .ok .ok).1 = some 0 ∧
      ((get (run numbered poisoned) (some 0) 0 true true .ok .ok).2.slots 0).data = 7 ∧
      (run numbered poisoned).view 0 0 = 100 ∧ (run numbered poisoned).disk 0 0 = 100 := by
  decide +kernel

end BigOS.Fs.Bcache
