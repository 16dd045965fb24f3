/-
  BigOS.Proc.Areas — what the areas of a process keep.

  Areas are aligned, lie in the region of their purpose, do not meet, and are counted.
  `unmap` and `protect` change what an address belongs to inside their range only: an
  area is described by its kind, which is all of it but its bounds.

  Main results:
    • `VmasOk` — the invariant, kept by `internalAddVma_added` and `replaceVma_spec`,
    • `vmaAt_iff` — the area at an address is the one that contains it,
    • `stageRange_spec` — the staged copy, address by address.
-/
import BigOS.Lib.RefCount
import BigOS.Proc.Vma

namespace BigOS.Proc

open BigOS.Lib BigOS.Mm Function Option List

variable {start stop i j a lo hi addr : Nat} {layout : UserRuntimeLayout} {entry e : VmaEntry}
  {vmas vmas' staged : VmaCollection} {compatible : VmaEntry → Bool} {perm : Option UInt8}

/-! ## §1. Bounds. -/

theorem vmaRangeBounds_iff : vmaRangeBounds start stop ↔
    start < stop ∧ pageAligned start ∧ pageAligned stop ∧ stop ≤ USER_LOW_HALF_LIMIT := by
  unfold vmaRangeBounds
  simp [and_assoc]

/-- An area that is allowed has bounds. -/
theorem runtimeVmaAllowed_bounds (h : runtimeVmaAllowed layout entry) :
    entry.start < entry.stop ∧ pageAligned entry.start ∧ pageAligned entry.stop ∧
      entry.stop ≤ USER_LOW_HALF_LIMIT := by
  unfold runtimeVmaAllowed at h
  split at h
  · cases h
  · rename_i hcond
    simp only [Bool.or_eq_true, Bool.not_eq_true', not_or, Bool.not_eq_false] at hcond
    exact vmaRangeBounds_iff.mp hcond.2

/-- The region of a purpose, by its bounds. -/
def UserRuntimeLayout.region (layout : UserRuntimeLayout) : VmaPurpose → Nat × Nat
  | .code | .data => (layout.elfLoad.base, layout.elfLoad.base + layout.elfLoad.len)
  | .heap => (layout.heap.base, layout.heap.base + layout.heap.len)
  | .anonymous => (layout.anonymous.base, layout.anonymous.base + layout.anonymous.len)
  | .stack => (layout.stackGrowth.base, layout.stack.base + layout.stack.len)
  | .stackGuard => (layout.stackGuard.base, layout.stackGuard.base + layout.stackGuard.len)
  | .fileMapped => (layout.fileMapped.base, layout.fileMapped.base + layout.fileMapped.len)
  | .dynInterp => (layout.dynInterp.base, layout.dynInterp.base + layout.dynInterp.len)
  | .dynLib => (layout.dynLib.base, layout.dynLib.base + layout.dynLib.len)

theorem rangeInside_bounds {range : UserRange} (h : rangeInside start stop range) :
    range.base ≤ start ∧ stop ≤ range.base + range.len := by
  unfold rangeInside addOverflow at h
  split at h
  · simp at h
  rename_i rangeEnd hend
  split at hend
  · cases hend
    simp only [Bool.and_eq_true, decide_eq_true_eq] at h
    exact h.2
  · cases hend

theorem rangeInsidePair_bounds {low high : UserRange} (h : rangeInsidePair start stop low high) :
    low.base ≤ start ∧ stop ≤ high.base + high.len := by
  unfold rangeInsidePair addOverflow at h
  split at h
  · simp at h
  rename_i rangeEnd hend
  split at hend
  · cases hend
    simp only [Bool.and_eq_true, decide_eq_true_eq] at h
    exact h.2.1
  · cases hend

/-- An area that is allowed lies in the region of its purpose. -/
theorem runtimeVmaAllowed_region (h : runtimeVmaAllowed layout entry) :
    (layout.region entry.purpose).1 ≤ entry.start ∧
      entry.stop ≤ (layout.region entry.purpose).2 := by
  unfold runtimeVmaAllowed at h
  split at h
  · cases h
  split at h
  · cases h
  split at h <;> rename_i hpurpose <;> rw [hpurpose] <;>
    simp only [elfVmaAllowed, Bool.and_eq_true] at h
  · exact rangeInside_bounds h.1.1.1.1.1
  · exact rangeInside_bounds h.1.1.1.1
  · exact rangeInside_bounds h.1.1.1
  · exact rangeInside_bounds h.1.1
  · exact rangeInsidePair_bounds h.1.1.1
  · exact rangeInside_bounds h.1.1.1
  · exact rangeInside_bounds h.1.1.1.1.1
  · exact rangeInside_bounds h.1.1.2
  · exact rangeInside_bounds h.1.1.2

/-! ## §2. The invariant. -/

/-- What `init_runtime_layout` gives every layout. -/
def UserRuntimeLayout.Initialised (layout : UserRuntimeLayout) : Prop :=
  layout.committed = true ∧ layout.anonymous = ⟨USER_ANON_BASE, USER_ANON_MAX_PAGES * PAGE_SIZE⟩

theorem initialised_of_bind {heapBase : Option Nat} {low high : Nat} {dynamic : Bool}
    (h : (heapBase.bind fun heapBase => initRuntimeLayout low high heapBase dynamic) =
      some layout) : layout.Initialised := by
  obtain ⟨heapBase, _, h⟩ := Option.bind_eq_some_iff.mp h
  unfold initRuntimeLayout at h
  rw [Option.ite_none_left_eq_some] at h
  cases hend : addOverflow heapBase (USER_HEAP_MAX_PAGES * PAGE_SIZE) with
  | none => simp [hend] at h
  | some =>
    simp only [hend, Option.ite_none_left_eq_some, Option.ite_none_right_eq_some] at h
    obtain ⟨_, _, _, h⟩ := h
    cases h
    exact ⟨rfl, rfl⟩

/-- A place where the search for an anonymous area can begin. -/
def CursorOk (next : Nat) : Prop := pageAligned next ∧ USER_ANON_BASE ≤ next

/-- The end of an anonymous area is a place to begin the next search. -/
theorem allowed_anonymous (hlayout : layout.Initialised) (h : runtimeVmaAllowed layout entry)
    (hpurpose : entry.purpose = .anonymous) : CursorOk entry.stop := by
  obtain ⟨hlt, _, hstop, _⟩ := runtimeVmaAllowed_bounds h
  have hbase := (runtimeVmaAllowed_region h).1
  rw [hpurpose, UserRuntimeLayout.region, hlayout.2] at hbase
  exact ⟨hstop, Nat.le_of_lt (Nat.lt_of_le_of_lt hbase hlt)⟩

/-- The areas of a process with this layout. -/
structure VmasOk (layout : UserRuntimeLayout) (vmas : VmaCollection) : Prop where
  bound : ∀ i entry, vmas.entries i = some entry → i < MAX_VMAS
  allowed : ∀ i entry, vmas.entries i = some entry → runtimeVmaAllowed layout entry
  notWx : ∀ i entry, vmas.entries i = some entry → permissionsWx entry.permissions = false
  disjoint : ∀ i j entry other, vmas.entries i = some entry → vmas.entries j = some other →
    i ≠ j → entry.stop ≤ other.start ∨ other.stop ≤ entry.start
  count : vmas.count = Slots.occupied MAX_VMAS (fun i => (vmas.entries i).isSome)
  initialised : layout.Initialised
  cursor : CursorOk vmas.anonNext

/-- An area without its bounds. -/
def VmaEntry.kind (entry : VmaEntry) : VmaEntry :=
  { entry with start := 0, stop := 0, materializedStart := 0, materializedEnd := 0 }

/-- What an address belongs to. -/
def kindAt (vmas : VmaCollection) (addr : Nat) : Option VmaEntry :=
  (vmaAt vmas addr).map VmaEntry.kind

theorem kindAt_some {vmas : VmaCollection} {addr : Nat} {kind : VmaEntry} :
    kindAt vmas addr = some kind ↔ ∃ vma, vmaAt vmas addr = some vma ∧ vma.kind = kind :=
  Option.map_eq_some_iff

theorem kindAt_of {vmas : VmaCollection} {addr : Nat} {vma : VmaEntry}
    (h : vmaAt vmas addr = some vma) : kindAt vmas addr = some vma.kind :=
  kindAt_some.mpr ⟨vma, h, rfl⟩

/-- The file that the area of a slot holds a reference to. -/
def fileOf (vmas : VmaCollection) (i : Nat) : Option Nat :=
  (vmas.entries i).bind fun entry =>
    if entry.backing == .fileBacked then entry.fileBacking else none

namespace VmasOk

variable (h : VmasOk layout vmas)

include h

/-- Areas that share an address are the same. -/
theorem slot_eq {other : VmaEntry} (hi : vmas.entries i = some entry)
    (hj : vmas.entries j = some other) (hia : entry.start ≤ a) (hia' : a < entry.stop)
    (hja : other.start ≤ a) (hja' : a < other.stop) : i = j := by
  by_contra hne
  have hsep := h.disjoint i j entry other hi hj hne
  omega

theorem find_eq (hi : vmas.entries i = some entry) (hlo : entry.start ≤ a) (hhi : a < entry.stop) :
    internalFindVma vmas a = some i := by
  have hbounds := runtimeVmaAllowed_bounds (h.allowed i entry hi)
  have hlow : ¬USER_LOW_HALF_LIMIT ≤ a := by omega
  unfold internalFindVma
  rw [if_neg hlow]
  refine Slots.find_unique (h.bound i entry hi) ?_ (fun j _ hj => ?_)
  · simp [slotContains, hi, hlo, hhi]
  · unfold slotContains at hj
    cases hent : vmas.entries j with
    | none => simp [hent] at hj
    | some =>
      simp only [hent, Bool.and_eq_true, decide_eq_true_eq] at hj
      exact (h.slot_eq hi hent hlo hhi hj.1 hj.2).symm

end VmasOk

theorem internalFindVma_some (h : internalFindVma vmas a = some i) :
    a < USER_LOW_HALF_LIMIT ∧ i < MAX_VMAS ∧
      ∃ entry, vmas.entries i = some entry ∧ entry.start ≤ a ∧ a < entry.stop := by
  unfold internalFindVma at h
  split at h
  · cases h
  rename_i hlow
  refine ⟨Nat.lt_of_not_le hlow, mem_range.mp (mem_of_find?_eq_some h), ?_⟩
  have hcontains := find?_some h
  unfold slotContains at hcontains
  cases hent : vmas.entries i with
  | none => simp [hent] at hcontains
  | some entry =>
    simp only [hent, Bool.and_eq_true, decide_eq_true_eq] at hcontains
    exact ⟨entry, rfl, hcontains⟩

theorem vmaAt_some (h : vmaAt vmas a = some entry) : ∃ i, internalFindVma vmas a = some i ∧
      vmas.entries i = some entry ∧ entry.start ≤ a ∧ a < entry.stop := by
  unfold vmaAt at h
  cases hfind : internalFindVma vmas a with
  | none => simp [hfind] at h
  | some i =>
    have hent : vmas.entries i = some entry := by simpa [hfind] using h
    obtain ⟨_, _, other, hother, hlo, hhi⟩ := internalFindVma_some hfind
    rw [hent] at hother
    cases hother
    exact ⟨i, rfl, hent, hlo, hhi⟩

/-- The area at an address is the one that contains it. -/
theorem vmaAt_iff (h : VmasOk layout vmas) : vmaAt vmas a = some entry ↔
      ∃ i, vmas.entries i = some entry ∧ entry.start ≤ a ∧ a < entry.stop := by
  constructor
  · intro hat
    have hsome := vmaAt_some hat
    exact ⟨hsome.choose, hsome.choose_spec.2⟩
  · intro hent
    obtain ⟨i, hi, hlo, hhi⟩ := hent
    unfold vmaAt
    rw [h.find_eq hi hlo hhi]
    exact hi

/-- Two collections with the same areas give the same area at every address. -/
theorem vmaAt_congr {other : VmaCollection} (h : other.entries = vmas.entries) (a : Nat) :
    vmaAt other a = vmaAt vmas a := by
  have hcontains : slotContains other a = slotContains vmas a := by
    funext i
    unfold slotContains
    rw [h]
  unfold vmaAt internalFindVma
  rw [hcontains, h]

/-- The invariant is about the areas, their number and the cursor. -/
theorem VmasOk.congr {other : VmaCollection} (h : VmasOk layout vmas)
    (hentries : other.entries = vmas.entries) (hcount : other.count = vmas.count)
    (hcursor : CursorOk other.anonNext) : VmasOk layout other where
  bound i entry hi := h.bound i entry (hentries ▸ hi)
  allowed i entry hi := h.allowed i entry (hentries ▸ hi)
  notWx i entry hi := h.notWx i entry (hentries ▸ hi)
  disjoint i j entry next hi hj := h.disjoint i j entry next (hentries ▸ hi) (hentries ▸ hj)
  count := by rw [hcount, h.count, hentries]
  initialised := h.initialised
  cursor := hcursor

/-- No areas. -/
theorem vmasOk_init (h : layout.Initialised) : VmasOk layout internalInitVmas where
  bound _ _ h := nomatch h
  allowed _ _ h := nomatch h
  notWx _ _ h := nomatch h
  disjoint _ _ _ _ h := nomatch h
  count := by decide +kernel
  initialised := h
  cursor := ⟨by decide, by decide⟩

/-! ## §3. Adding and removing. -/

theorem vmasOverlap_false (h : vmasOverlap vmas start stop = false)
    (hi : vmas.entries i = some entry) (hbound : i < MAX_VMAS) :
    stop ≤ entry.start ∨ entry.stop ≤ start := by
  unfold vmasOverlap at h
  rw [List.any_eq_false] at h
  have hslot := h i (List.mem_range.mpr hbound)
  unfold slotOverlaps at hslot
  simp only [hi, Bool.and_eq_true, decide_eq_true_eq] at hslot
  omega

/-- A slot that was vacant has the new area. -/
structure Added (vmas vmas' : VmaCollection) (i : Nat) (entry : VmaEntry) : Prop where
  bound : i < MAX_VMAS
  vacant : vmas.entries i = none
  notWx : permissionsWx entry.permissions = false
  apart : ∀ j other, vmas.entries j = some other → j < MAX_VMAS →
    entry.stop ≤ other.start ∨ other.stop ≤ entry.start
  result : vmas' =
    { vmas with entries := update vmas.entries i (some entry), count := vmas.count + 1 }

theorem internalAddVma_added (h : internalAddVma vmas entry = some vmas') :
    ∃ i, Added vmas vmas' i entry := by
  unfold internalAddVma at h
  split at h
  · cases h
  rename_i hcond
  split at h
  · cases h
  rename_i hover
  simp only [Bool.or_eq_true, not_or, Bool.not_eq_true] at hcond
  rw [map_eq_some_iff] at h
  obtain ⟨i, hfind, hresult⟩ := h
  have hvacant := find?_some hfind
  exact ⟨i, mem_range.mp (mem_of_find?_eq_some hfind), by simpa using hvacant,
    hcond.1.2, fun j other hj hbound =>
      vmasOverlap_false (by simpa using hover) hj hbound, hresult.symm⟩

namespace Added

variable (h : Added vmas vmas' i entry)

include h

theorem self : vmas'.entries i = some entry := by
  rw [h.result]
  exact update_self ..

theorem other (hj : j ≠ i) : vmas'.entries j = vmas.entries j := by
  rw [h.result]
  exact update_of_ne hj ..

theorem keeps (hj : vmas.entries j = some e) : vmas'.entries j = some e := by
  have hne : j ≠ i := by
    intro heq
    rw [heq, h.vacant] at hj
    cases hj
  rw [h.other hne]
  exact hj

theorem back (hj : vmas'.entries j = some e) :
    j = i ∧ entry = e ∨ j ≠ i ∧ vmas.entries j = some e := by
  rw [h.result] at hj
  exact update_some_cases hj

theorem ok (hok : VmasOk layout vmas) (hallowed : runtimeVmaAllowed layout entry) :
    VmasOk layout vmas' where
  bound j e hj := by
    rcases h.back hj with ⟨rfl, _⟩ | ⟨_, hj⟩
    · exact h.bound
    · exact hok.bound j e hj
  allowed j e hj := by
    rcases h.back hj with ⟨_, rfl⟩ | ⟨_, hj⟩
    · exact hallowed
    · exact hok.allowed j e hj
  notWx j e hj := by
    rcases h.back hj with ⟨_, rfl⟩ | ⟨_, hj⟩
    · exact h.notWx
    · exact hok.notWx j e hj
  disjoint j k e e' hj hk hjk := by
    rcases h.back hj with ⟨rfl, rfl⟩ | ⟨_, hj⟩
    · rcases h.back hk with ⟨heq, _⟩ | ⟨_, hk⟩
      · exact absurd heq.symm hjk
      · exact h.apart k e' hk (hok.bound k e' hk)
    · rcases h.back hk with ⟨_, rfl⟩ | ⟨_, hk⟩
      · exact (h.apart j e hj (hok.bound j e hj)).symm
      · exact hok.disjoint j k e e' hj hk hjk
  count := by
    have hfill := Slots.occupied_fill (p := fun j => (vmas.entries j).isSome)
      (q := fun j => (vmas'.entries j).isSome) h.bound (by simp [h.vacant]) (by simp [h.self])
      (fun j _ hji => by simp [h.other hji])
    rw [hfill, ← hok.count, h.result]
  initialised := hok.initialised
  cursor := by rw [h.result]; exact hok.cursor

/-- An address belongs to the new area, or to what it belonged to before. -/
theorem vmaAt_eq (hok : VmasOk layout vmas) (hallowed : runtimeVmaAllowed layout entry)
    (a : Nat) : vmaAt vmas' a =
      if entry.start ≤ a ∧ a < entry.stop then some entry else vmaAt vmas a := by
  have hok' := h.ok hok hallowed
  split
  · rename_i hin
    exact (vmaAt_iff hok').mpr ⟨i, h.self, hin⟩
  rename_i hout
  apply Option.ext
  intro e
  rw [vmaAt_iff hok', vmaAt_iff hok]
  constructor
  · intro hex
    obtain ⟨j, hj, hlo, hhi⟩ := hex
    rcases h.back hj with ⟨_, rfl⟩ | ⟨_, hj⟩
    · exact absurd ⟨hlo, hhi⟩ hout
    · exact ⟨j, hj, hlo, hhi⟩
  · intro hex
    obtain ⟨j, hj, hlo, hhi⟩ := hex
    exact ⟨j, h.keeps hj, hlo, hhi⟩

/-- An area that holds no file leaves the references of the slots as they are. -/
theorem fileOf_eq (hfile : entry.backing ≠ .fileBacked) (j : Nat) :
    fileOf vmas' j = fileOf vmas j := by
  unfold fileOf
  by_cases hji : j = i
  · subst hji
    rw [h.self, h.vacant]
    simp [hfile]
  · rw [h.other hji]

end Added

/-- A slot has been vacated. -/
structure Removed (vmas vmas' : VmaCollection) (i : Nat) : Prop where
  result : vmas' = { vmas with entries := update vmas.entries i none, count := vmas.count - 1 }

theorem internalRemoveVma_removed (hok : VmasOk layout vmas) (hi : vmas.entries i = some entry)
    (h : internalRemoveVma vmas entry.start entry.stop = some vmas') : Removed vmas vmas' i := by
  unfold internalRemoveVma at h
  have hlt := (runtimeVmaAllowed_bounds (hok.allowed i entry hi)).1
  rw [Slots.find_unique (hok.bound i entry hi)] at h
  · exact ⟨(Option.some.inj h).symm⟩
  · simp [hi]
  · intro j _ hj
    cases hent : vmas.entries j with
    | none => simp [hent] at hj
    | some =>
      simp only [hent, Bool.and_eq_true, beq_iff_eq] at hj
      exact (hok.slot_eq hi hent (Nat.le_refl _) hlt (by omega) (by omega)).symm

namespace Removed

variable (h : Removed vmas vmas' i)

include h

theorem self : vmas'.entries i = none := by
  rw [h.result]
  exact update_self ..

theorem other (hj : j ≠ i) : vmas'.entries j = vmas.entries j := by
  rw [h.result]
  exact update_of_ne hj ..

theorem back (hj : vmas'.entries j = some e) : j ≠ i ∧ vmas.entries j = some e := by
  have hne : j ≠ i := by
    intro heq
    rw [heq, h.self] at hj
    cases hj
  rw [h.other hne] at hj
  exact ⟨hne, hj⟩

theorem ok (hok : VmasOk layout vmas) (hi : vmas.entries i = some entry) : VmasOk layout vmas' where
  bound j e hj := hok.bound j e (h.back hj).2
  allowed j e hj := hok.allowed j e (h.back hj).2
  notWx j e hj := hok.notWx j e (h.back hj).2
  disjoint j k e e' hj hk := hok.disjoint j k e e' (h.back hj).2 (h.back hk).2
  count := by
    have hvacate := Slots.occupied_vacate (p := fun j => (vmas.entries j).isSome)
      (q := fun j => (vmas'.entries j).isSome) (hok.bound i entry hi) (by simp [hi])
      (by simp [h.self]) (fun j _ hji => by simp [h.other hji])
    rw [← hok.count] at hvacate
    rw [h.result]
    rw [h.result] at hvacate
    show vmas.count - 1 = _
    omega
  initialised := hok.initialised
  cursor := by rw [h.result]; exact hok.cursor

theorem vmaAt_eq (hok : VmasOk layout vmas) (hi : vmas.entries i = some entry) (a : Nat) :
    vmaAt vmas' a =
      if entry.start ≤ a ∧ a < entry.stop then none else vmaAt vmas a := by
  have hok' := h.ok hok hi
  apply Option.ext
  intro e
  rw [vmaAt_iff hok']
  split
  · rename_i hin
    constructor
    · intro hex
      obtain ⟨j, hj, hlo, hhi⟩ := hex
      have hback := h.back hj
      exact absurd (hok.slot_eq hback.2 hi hlo hhi hin.1 hin.2) hback.1
    · intro hnone
      cases hnone
  · rename_i hout
    rw [vmaAt_iff hok]
    constructor
    · intro hex
      obtain ⟨j, hj, hlo, hhi⟩ := hex
      exact ⟨j, (h.back hj).2, hlo, hhi⟩
    · intro hex
      obtain ⟨j, hj, hlo, hhi⟩ := hex
      have hne : j ≠ i := by
        intro heq
        rw [heq, hi] at hj
        cases hj
        exact hout ⟨hlo, hhi⟩
      exact ⟨j, (h.other hne).trans hj, hlo, hhi⟩

theorem fileOf_eq (hi : vmas.entries i = some entry) (hfile : entry.backing ≠ .fileBacked)
    (j : Nat) : fileOf vmas' j = fileOf vmas j := by
  unfold fileOf
  by_cases hji : j = i
  · subst hji
    rw [h.self, hi]
    simp [hfile]
  · rw [h.other hji]

end Removed

/-! ## §4. Parts of an area. -/

/-- The areas that can be cut: anonymous ones of the two mapping windows. -/
structure VmaEntry.Movable (entry : VmaEntry) : Prop where
  backing : entry.backing = .anonymous
  purpose : entry.purpose = .anonymous ∨ entry.purpose = .dynLib

theorem rangeInside_mono {range : UserRange} (h : rangeInside start stop range)
    (hlo : start ≤ lo) (hhi : hi ≤ stop) : rangeInside lo hi range := by
  unfold rangeInside at h ⊢
  rw [Bool.and_eq_true] at h ⊢
  refine ⟨h.1, ?_⟩
  cases hend : addOverflow range.base range.len with
  | none => simp [hend] at h
  | some =>
    have hin := h.2
    simp only [hend, Bool.and_eq_true, decide_eq_true_eq] at hin ⊢
    omega

theorem clamp_bounds (h : lo ≤ hi) (v : Nat) : lo ≤ clamp lo hi v ∧ clamp lo hi v ≤ hi := by
  unfold clamp
  dsimp only
  split <;> split <;> omega

/-- A part of an area that can be cut is allowed, with any permissions. -/
theorem allowed_clipped (h : runtimeVmaAllowed layout entry) (hmov : entry.Movable)
    (hbounds : vmaRangeBounds lo hi) (hlo : entry.start ≤ lo) (hhi : hi ≤ entry.stop)
    (perm : UInt8) :
    runtimeVmaAllowed layout { clippedVma entry lo hi with permissions := perm } := by
  have hlt := (vmaRangeBounds_iff.mp hbounds).1
  have hfirst := clamp_bounds (Nat.le_of_lt hlt) entry.materializedStart
  have hlast := clamp_bounds (Nat.le_of_lt hlt) entry.materializedEnd
  unfold runtimeVmaAllowed at h
  split at h
  · cases h
  rename_i hcommitted
  split at h
  · cases h
  simp only [Bool.or_eq_true, not_or, Bool.not_eq_true', Bool.not_eq_false] at hcommitted
  unfold runtimeVmaAllowed
  -- The bounds and the materialized part are those of the cut.
  rw [if_neg (by simp [clippedVma, hcommitted.1, hbounds]), if_neg]
  · rcases hmov.purpose with hp | hp <;> simp only [hp, Bool.and_eq_true] at h
    · simp only [clippedVma, hp, Bool.and_eq_true]
      exact ⟨⟨rangeInside_mono h.1.1 hlo hhi, h.1.2⟩, h.2⟩
    · simp only [clippedVma, hp, Bool.and_eq_true]
      exact ⟨⟨⟨h.1.1.1, rangeInside_mono h.1.1.2 hlo hhi⟩, h.1.2⟩, h.2⟩
  · simp only [clippedVma, Bool.and_eq_true, Bool.or_eq_true, not_and]
    intro _ hbad
    rcases hbad with ((hbad | hbad) | hbad) | hbad
    · exact absurd (of_decide_eq_true hbad) (Nat.not_lt.mpr hfirst.1)
    · exact absurd (of_decide_eq_true hbad) (Nat.not_lt.mpr hfirst.2)
    · have hless := of_decide_eq_true hbad
      split at hless <;> omega
    · have hless := of_decide_eq_true hbad
      split at hless <;> omega

/-- What a part of an area adds to a collection. -/
structure Extends (layout : UserRuntimeLayout) (vmas vmas' : VmaCollection)
    (part : Option VmaEntry) : Prop where
  ok : VmasOk layout vmas'
  keeps : ∀ j entry, vmas.entries j = some entry → vmas'.entries j = some entry
  inside : ∀ entry a, part = some entry → entry.start ≤ a → a < entry.stop →
    vmaAt vmas' a = some entry
  outside : ∀ a, (∀ entry, part = some entry → ¬(entry.start ≤ a ∧ a < entry.stop)) →
    vmaAt vmas' a = vmaAt vmas a
  files : ∀ j, fileOf vmas' j = fileOf vmas j

/-- A part of an area that can be added, with its bounds. -/
def PartOf (layout : UserRuntimeLayout) (lo hi : Nat) (part : Option VmaEntry) : Prop :=
  ∀ entry, part = some entry → runtimeVmaAllowed layout entry ∧
    entry.backing ≠ .fileBacked ∧ entry.start = lo ∧ entry.stop = hi

theorem PartOf.ite {c : Prop} [Decidable c] (h : c → PartOf layout lo hi (some entry)) :
    PartOf layout lo hi (if c then some entry else none) := by
  split
  · exact h (by assumption)
  · exact nofun

/-- A part is added, and behind its bounds nothing changes. -/
theorem addPart_extends {part : Option VmaEntry} (hok : VmasOk layout vmas)
    (hpart : PartOf layout lo hi part) (h : addPart vmas part = some vmas') :
    Extends layout vmas vmas' part ∧ ∀ a, ¬(lo ≤ a ∧ a < hi) → vmaAt vmas' a = vmaAt vmas a := by
  cases part with
  | none =>
    cases h
    exact ⟨⟨hok, fun _ _ hj => hj, nofun, fun _ _ => rfl, fun _ => rfl⟩, fun _ _ => rfl⟩
  | some entry =>
    obtain ⟨hallowed, hback, rfl, rfl⟩ := hpart entry rfl
    obtain ⟨i, hadd⟩ := internalAddVma_added h
    have hat := hadd.vmaAt_eq hok hallowed
    refine ⟨⟨hadd.ok hok hallowed, fun j e hj => hadd.keeps hj, ?_, ?_, hadd.fileOf_eq hback⟩,
      fun a hout => ?_⟩
    · intro e a he hlo hhi
      cases he
      rw [hat, if_pos ⟨hlo, hhi⟩]
    · intro a hout
      rw [hat, if_neg (hout entry rfl)]
    · rw [hat, if_neg hout]

/-! ## §5. Areas that change in place. -/

/-- The materialized part of an area can be any part of it. -/
theorem runtimeVmaAllowed_materialized {b : Nat} (h : runtimeVmaAllowed layout entry)
    (ha : entry.start ≤ a ∧ a ≤ entry.stop) (hb : entry.start ≤ b ∧ b ≤ entry.stop) :
    runtimeVmaAllowed layout { entry with materializedStart := a, materializedEnd := b } := by
  unfold runtimeVmaAllowed at h ⊢
  split at h
  · cases h
  rename_i hcommitted
  split at h
  · cases h
  rw [if_neg hcommitted, if_neg]
  · exact h
  · simp only [Bool.and_eq_true, Bool.or_eq_true, not_and]
    intro _ hbad
    rcases hbad with ((hbad | hbad) | hbad) | hbad <;>
      have hless := of_decide_eq_true hbad <;> omega

/-- The materialized part of an allowed area that is not a guard lies inside it. -/
theorem runtimeVmaAllowed_inside (h : runtimeVmaAllowed layout entry)
    (hguard : entry.backing ≠ .guard) :
    (entry.start ≤ entry.materializedStart ∧ entry.materializedStart ≤ entry.stop) ∧
      entry.start ≤ entry.materializedEnd ∧ entry.materializedEnd ≤ entry.stop := by
  unfold runtimeVmaAllowed at h
  split at h
  · cases h
  split at h
  · cases h
  rename_i hbad
  simp only [Bool.and_eq_true, Bool.or_eq_true, not_and, not_or, bne_iff_ne, ne_eq,
    decide_eq_true_eq] at hbad
  have hin := hbad hguard
  omega

/-- The area of a slot is replaced by one with the same bounds and of the same kind. -/
structure Edited (vmas vmas' : VmaCollection) (i : Nat) (entry entry' : VmaEntry) : Prop where
  slot : vmas.entries i = some entry
  start : entry'.start = entry.start
  stop : entry'.stop = entry.stop
  kind : entry'.kind = entry.kind
  entries : vmas'.entries = update vmas.entries i (some entry')
  count : vmas'.count = vmas.count
  cursor : vmas'.anonNext = vmas.anonNext

namespace Edited

variable {fuel : Nat} {entry' : VmaEntry} (h : Edited vmas vmas' i entry entry')

include h

/-- An area after the change, and the one that it was. -/
theorem back (hj : vmas'.entries j = some e) :
    ∃ old, vmas.entries j = some old ∧ e.start = old.start ∧ e.stop = old.stop ∧
      e.kind = old.kind ∧ (e = old ∨ e = entry') := by
  rw [h.entries] at hj
  rcases update_some_cases hj with ⟨rfl, rfl⟩ | ⟨_, hj⟩
  · exact ⟨entry, h.slot, h.start, h.stop, h.kind, .inr rfl⟩
  · exact ⟨e, hj, rfl, rfl, rfl, .inl rfl⟩

theorem ok (hok : VmasOk layout vmas) (hallowed : runtimeVmaAllowed layout entry') :
    VmasOk layout vmas' where
  bound j e hj := by
    obtain ⟨old, hold, _⟩ := h.back hj
    exact hok.bound j old hold
  allowed j e hj := by
    obtain ⟨old, hold, _, _, _, heq⟩ := h.back hj
    rcases heq with heq | heq <;> rw [heq]
    · exact hok.allowed j old hold
    · exact hallowed
  notWx j e hj := by
    obtain ⟨old, hold, _, _, hkind, _⟩ := h.back hj
    have hperm : e.permissions = old.permissions := congrArg (·.permissions) hkind
    rw [hperm]
    exact hok.notWx j old hold
  disjoint j k e f hj hk hne := by
    obtain ⟨old, hold, hs, ht, _⟩ := h.back hj
    obtain ⟨old', hold', hs', ht', _⟩ := h.back hk
    have hsep := hok.disjoint j k old old' hold hold' hne
    omega
  count := by
    have hsome : ∀ j, (vmas'.entries j).isSome = (vmas.entries j).isSome := by
      intro j
      rw [h.entries]
      by_cases hji : j = i
      · rw [hji, update_self, h.slot]
        rfl
      · rw [update_of_ne hji]
    rw [h.count, hok.count]
    simp only [hsome]
  initialised := hok.initialised
  cursor := h.cursor ▸ hok.cursor

theorem kindAt_eq (a : Nat) : kindAt vmas' a = kindAt vmas a := by
  have hcontains : slotContains vmas' a = slotContains vmas a := by
    funext j
    unfold slotContains
    rw [h.entries]
    by_cases hji : j = i
    · simp only [hji, update_self, h.slot, h.start, h.stop]
    · rw [update_of_ne hji]
  unfold kindAt vmaAt internalFindVma
  rw [hcontains]
  -- The slot is the same, and what it holds has the same kind.
  cases (if USER_LOW_HALF_LIMIT ≤ a then none
    else (range MAX_VMAS).find? (slotContains vmas a)) with
  | none => rfl
  | some j =>
    show (vmas'.entries j).map VmaEntry.kind = (vmas.entries j).map VmaEntry.kind
    rw [h.entries]
    by_cases hji : j = i
    · rw [hji, update_self, h.slot, map_some, map_some, h.kind]
    · rw [update_of_ne hji]

theorem fileOf_eq (j : Nat) : fileOf vmas' j = fileOf vmas j := by
  unfold fileOf
  rw [h.entries]
  by_cases hji : j = i
  · have hback : entry'.backing = entry.backing := congrArg (·.backing) h.kind
    have hfile : entry'.fileBacking = entry.fileBacking := congrArg (·.fileBacking) h.kind
    rw [hji, update_self, h.slot, bind_some, bind_some, hback, hfile]
  · rw [update_of_ne hji]

end Edited

/-! ## §6. Staged changes. -/

/-- What comes in the place of the part of an area inside the range: nothing, or the same
with other permissions. -/
def insidePart (perm : Option UInt8) (part : VmaEntry) : Option VmaEntry :=
  perm.map fun perm => { part with permissions := perm }

/-- One round of `stageRange` on the area `entry`, up to `cutEnd`. -/
def replaceVma (staged : VmaCollection) (perm : Option UInt8) (entry : VmaEntry)
    (cursor cutEnd : Nat) : Option VmaCollection := do
  let staged ← internalRemoveVma staged entry.start entry.stop
  let staged ← addPart staged
    (if entry.start < cursor then some (clippedVma entry entry.start cursor) else none)
  let staged ← addPart staged (insidePart perm (clippedVma entry cursor cutEnd))
  addPart staged
    (if cutEnd < entry.stop then some (clippedVma entry cutEnd entry.stop) else none)

theorem stageRange_succ {cursor : Nat} (hcursor : cursor < stop) :
    stageRange vmas compatible (insidePart perm) stop (fuel + 1) cursor staged =
      (vmaAt vmas cursor).bind fun entry =>
        if !compatible entry then none
        else (replaceVma staged perm entry cursor (min entry.stop stop)).bind
          (stageRange vmas compatible (insidePart perm) stop fuel (min entry.stop stop)) := by
  have hmin : ∀ e : VmaEntry, (if e.stop < stop then e.stop else stop) = min e.stop stop := by
    intro e
    split <;> omega
  rw [stageRange, if_neg (Nat.not_le.mpr hcursor)]
  cases vmaAt vmas cursor with
  | none => rfl
  | some =>
    simp only [bind_some, hmin, replaceVma, bind, bind_assoc]

/-- One round changes what the addresses from `cursor` to `cutEnd` belong to. -/
structure Replaced (layout : UserRuntimeLayout) (staged staged' : VmaCollection)
    (perm : Option UInt8) (i : Nat) (entry : VmaEntry) (cursor cutEnd : Nat) : Prop where
  ok : VmasOk layout staged'
  keeps : ∀ j other, j ≠ i → staged.entries j = some other → staged'.entries j = some other
  inside : ∀ a, cursor ≤ a → a < cutEnd →
    kindAt staged' a = perm.map fun perm => { entry.kind with permissions := perm }
  outside : ∀ a, ¬(cursor ≤ a ∧ a < cutEnd) → kindAt staged' a = kindAt staged a
  files : ∀ j, fileOf staged' j = fileOf staged j

theorem replaceVma_spec {staged' : VmaCollection} (hok : VmasOk layout staged)
    (hi : staged.entries i = some entry) (hmov : entry.Movable) {cursor cutEnd : Nat}
    (hlo : entry.start ≤ cursor) (hmid : cursor < cutEnd) (hhi : cutEnd ≤ entry.stop)
    (hcursor : pageAligned cursor) (hcut : pageAligned cutEnd)
    (h : replaceVma staged perm entry cursor cutEnd = some staged') :
    Replaced layout staged staged' perm i entry cursor cutEnd := by
  have hallowed := hok.allowed i entry hi
  have hbounds := runtimeVmaAllowed_bounds hallowed
  have hback : entry.backing ≠ .fileBacked := by
    rw [hmov.backing]
    exact nofun
  -- Every part has the bounds of an area.
  have hpart : ∀ lo hi perm, entry.start ≤ lo → lo < hi → hi ≤ entry.stop →
      pageAligned lo = true → pageAligned hi = true →
      PartOf layout lo hi (some { clippedVma entry lo hi with permissions := perm }) := by
    intro lo hi perm h1 h2 h3 h4 h₅ e he
    cases he
    exact ⟨allowed_clipped hallowed hmov
      (vmaRangeBounds_iff.mpr ⟨h2, h4, h₅, by omega⟩) h1 h3 perm, hback, rfl, rfl⟩
  unfold replaceVma at h
  simp only [bind, bind_eq_some_iff] at h
  obtain ⟨s1, hremove, s2, hleft, s3, hinside, hright⟩ := h
  have hremoved := internalRemoveVma_removed hok hi hremove
  have hmidPart : PartOf layout cursor cutEnd
      (insidePart perm (clippedVma entry cursor cutEnd)) := by
    cases perm with
    | none => exact nofun
    | some p => exact hpart _ _ p hlo hmid hhi hcursor hcut
  obtain ⟨h2, hout2⟩ := addPart_extends (hremoved.ok hok hi) (.ite fun hlt =>
    hpart _ _ entry.permissions (Nat.le_refl _) hlt (by omega) hbounds.2.1 hcursor) hleft
  obtain ⟨h3, hout3⟩ := addPart_extends h2.ok hmidPart hinside
  obtain ⟨h4, hout4⟩ := addPart_extends h3.ok (.ite fun hlt =>
    hpart _ _ entry.permissions (by omega) hlt (Nat.le_refl _) hcut hbounds.2.2.1) hright
  have hin_left : ∀ a, entry.start ≤ a → a < cursor → vmaAt staged' a =
      some (clippedVma entry entry.start cursor) := by
    intro a ha ha'
    have hcond : entry.start < cursor := by omega
    rw [hout4 a (by omega), hout3 a (by omega)]
    exact h2.inside _ a (if_pos hcond) ha ha'
  have hin_right : ∀ a, cutEnd ≤ a → a < entry.stop → vmaAt staged' a =
      some (clippedVma entry cutEnd entry.stop) := by
    intro a ha ha'
    have hcond : cutEnd < entry.stop := by omega
    exact h4.inside _ a (if_pos hcond) ha ha'
  have hin_mid : ∀ a, cursor ≤ a → a < cutEnd → vmaAt staged' a =
      insidePart perm (clippedVma entry cursor cutEnd) := by
    intro a ha ha'
    rw [hout4 a (by omega)]
    cases perm with
    | none =>
      rw [h3.outside a nofun, hout2 a (by omega),
        hremoved.vmaAt_eq hok hi, if_pos ⟨by omega, by omega⟩]
      rfl
    | some => exact h3.inside _ a rfl ha ha'
  have hout : ∀ a, ¬(entry.start ≤ a ∧ a < entry.stop) → vmaAt staged' a = vmaAt staged a := by
    intro a ha
    rw [hout4 a (by omega), hout3 a (by omega), hout2 a (by omega), hremoved.vmaAt_eq hok hi,
      if_neg ha]
  refine ⟨h4.ok, ?_, ?_, ?_, ?_⟩
  · intro j other hj hother
    exact h4.keeps j other (h3.keeps j other (h2.keeps j other ((hremoved.other hj).trans hother)))
  · intro a ha ha'
    unfold kindAt
    rw [hin_mid a ha ha']
    unfold insidePart
    cases perm with
    | none => rfl
    | some => rfl
  · intro a ha
    have hsame : vmaAt staged a = if entry.start ≤ a ∧ a < entry.stop then some entry
        else vmaAt staged a := by
      split
      · rename_i hin
        exact (vmaAt_iff hok).mpr ⟨i, hi, hin⟩
      · rfl
    unfold kindAt
    by_cases hin : entry.start ≤ a ∧ a < entry.stop
    · rw [hsame, if_pos hin]
      by_cases hleft : a < cursor
      · rw [hin_left a hin.1 hleft]
        rfl
      · rw [hin_right a (by omega) hin.2]
        rfl
    · rw [hout a hin]
  · intro j
    rw [h4.files, h3.files, h2.files, hremoved.fileOf_eq hi hback]

/-- The staged copy, address by address. -/
structure Staged (layout : UserRuntimeLayout) (vmas staged staged' : VmaCollection)
    (compatible : VmaEntry → Bool) (perm : Option UInt8) (cursor stop : Nat) : Prop where
  ok : VmasOk layout staged'
  inside : ∀ a, cursor ≤ a → a < stop → ∃ entry, vmaAt vmas a = some entry ∧ compatible entry ∧
      kindAt staged' a = perm.map fun perm => { entry.kind with permissions := perm }
  outside : ∀ a, ¬(cursor ≤ a ∧ a < stop) → kindAt staged' a = kindAt staged a
  files : ∀ j, fileOf staged' j = fileOf staged j

section

variable (hvmas : VmasOk layout vmas) (hmov : ∀ entry, compatible entry → entry.Movable)

include hvmas hmov

/-- The loop of `stage_anonymous_unmap` and `stage_anonymous_protect`: the areas that end
behind the cursor are still as they were. -/
theorem stageRange_spec (hstop : pageAligned stop) (fuel : Nat) :
    ∀ cursor staged staged', pageAligned cursor → VmasOk layout staged →
      (cursor < stop → ∀ i entry, vmas.entries i = some entry → cursor < entry.stop →
        staged.entries i = some entry) →
      stageRange vmas compatible (insidePart perm) stop fuel cursor staged = some staged' →
      Staged layout vmas staged staged' compatible perm cursor stop := by
  have hdone : ∀ cursor staged, stop ≤ cursor → VmasOk layout staged →
      Staged layout vmas staged staged compatible perm cursor stop := by
    intro cursor staged hle hok
    exact ⟨hok, fun a ha ha' => absurd ha' (by omega), fun _ _ => rfl, fun _ => rfl⟩
  induction fuel with
  | zero =>
    intro cursor staged staged' _ hok _ h
    rw [stageRange] at h
    split at h
    · cases h
      exact hdone cursor staged (by assumption) hok
    · cases h
  | succ fuel ih =>
    intro cursor staged staged' hcursor hok huntouched h
    by_cases hlt : cursor < stop
    · rw [stageRange_succ hlt, bind_eq_some_iff] at h
      obtain ⟨entry, hat, h⟩ := h
      split at h
      · cases h
      rename_i hcompat
      have hcompat : compatible entry := by simpa using hcompat
      rw [bind_eq_some_iff] at h
      obtain ⟨next, hreplace, hrest⟩ := h
      obtain ⟨i, hi, hlo, hhi⟩ := (vmaAt_iff hvmas).mp hat
      have hentBounds := runtimeVmaAllowed_bounds (hvmas.allowed i entry hi)
      have hcut : pageAligned (min entry.stop stop) := by
        rcases Nat.le_total entry.stop stop with hle | hle
        · rw [Nat.min_eq_left hle]
          exact hentBounds.2.2.1
        · rw [Nat.min_eq_right hle]
          exact hstop
      have hround := replaceVma_spec hok (huntouched hlt i entry hi hhi) (hmov entry hcompat)
        hlo (by omega) (Nat.min_le_left ..) hcursor hcut hreplace
      -- The area of the round ends at the new cursor, or the range does.
      have hstill : min entry.stop stop < stop → ∀ j other, vmas.entries j = some other →
          min entry.stop stop < other.stop → next.entries j = some other := by
        intro hless j other hj hother
        have hne : j ≠ i := by
          intro heq
          rw [heq, hi] at hj
          cases hj
          omega
        exact hround.keeps j other hne (huntouched hlt j other hj (by omega))
      have hrec := ih _ next staged' hcut hround.ok hstill hrest
      refine ⟨hrec.ok, ?_, ?_, ?_⟩
      · intro a ha ha'
        by_cases hin : a < min entry.stop stop
        · refine ⟨entry, (vmaAt_iff hvmas).mpr ⟨i, hi, by omega, by omega⟩, hcompat, ?_⟩
          rw [hrec.outside a (by omega)]
          exact hround.inside a ha hin
        · exact hrec.inside a (by omega) ha'
      · intro a ha
        rw [hrec.outside a (by omega)]
        exact hround.outside a (by omega)
      · intro j
        rw [hrec.files, hround.files]
    · rw [stageRange, if_pos (by omega)] at h
      cases h
      exact hdone cursor staged (by omega) hok

/-- The areas from which the staging starts are those of the process. -/
theorem stageRange_staged (haddr : pageAligned addr) (hstop : pageAligned stop)
    (h : stageRange vmas compatible (insidePart perm) stop fuel addr vmas = some staged) :
    Staged layout vmas vmas staged compatible perm addr stop :=
  stageRange_spec hvmas hmov hstop fuel addr vmas staged haddr hvmas (fun _ _ _ hi _ => hi) h

end

theorem anonymousLifecycle_movable {perm : UInt8}
    (h : anonymousLifecycleVmaCompatible layout entry perm) : entry.Movable := by
  unfold anonymousLifecycleVmaCompatible at h
  simp only [Bool.and_eq_true, beq_iff_eq] at h
  exact ⟨h.1.1.1.1, .inl h.1.1.1.2⟩

theorem dynLibCompatible_movable (h : dynLibCompatible entry) : entry.Movable := by
  unfold dynLibCompatible at h
  simp only [Bool.and_eq_true, beq_iff_eq] at h
  exact ⟨h.2, .inr h.1⟩

theorem lifecycleRangeBounds_some {len : Nat} (h : lifecycleRangeBounds addr len = some stop) :
    pageAligned addr ∧ pageAligned stop ∧ addr < stop ∧ stop = addr + len ∧
      stop ≤ USER_LOW_HALF_LIMIT := by
  unfold lifecycleRangeBounds at h
  split at h
  · cases h
  rename_i hcond
  simp only [Bool.or_eq_true, not_or, Bool.not_eq_true', Bool.not_eq_false] at hcond
  unfold addOverflow at h
  by_cases hover : addr + len < 2 ^ 64
  · simp only [if_pos hover] at h
    split at h
    · cases h
    rename_i hlimit
    cases h
    simp only [Bool.or_eq_true, decide_eq_true_eq, not_or, Nat.not_lt, Nat.not_le] at hlimit
    have haligned : pageAligned (addr + len) := by
      have h1 := hcond.1.2
      have h2 := hcond.2
      unfold pageAligned at h1 h2 ⊢
      rw [beq_iff_eq] at h1 h2 ⊢
      rw [Nat.add_mod, h1, h2]
      rfl
    exact ⟨hcond.1.2, haligned, hlimit.2, rfl, hlimit.1⟩
  · rw [if_neg hover] at h
    cases h

section

variable (hvmas : VmasOk layout vmas) (haddr : pageAligned addr)
  (hstop : pageAligned stop)

include hvmas haddr hstop

theorem stageAnonymousUnmap_staged (h : stageAnonymousUnmap layout vmas addr stop = some staged) :
    Staged layout vmas vmas staged
      (fun entry => anonymousLifecycleVmaCompatible layout entry entry.permissions) none addr
      stop :=
  stageRange_staged hvmas (fun _ => anonymousLifecycle_movable) haddr hstop h

theorem stageAnonymousProtect_staged {perm : UInt8}
    (h : stageAnonymousProtect layout vmas addr stop perm = some staged) :
    Staged layout vmas vmas staged
      (fun entry => anonymousLifecycleVmaCompatible layout entry perm) (some perm) addr stop := by
  unfold stageAnonymousProtect at h
  split at h
  · cases h
  · exact stageRange_staged hvmas (fun _ => anonymousLifecycle_movable) haddr hstop h

theorem stageDynLibProtect_staged {perm : UInt8}
    (h : stageDynLibProtect vmas addr stop perm = some staged) :
    Staged layout vmas vmas staged dynLibCompatible (some perm) addr stop := by
  unfold stageDynLibProtect at h
  split at h
  · cases h
  · exact stageRange_staged hvmas (fun _ => dynLibCompatible_movable) haddr hstop h

end

end BigOS.Proc
