/-
  BigOS.Proc.Anonymous — the window of anonymous areas.

  `unmap_anonymous_current` and `protect_anonymous_current` stage the areas before they
  touch a page, so a call that fails has changed nothing.  `map_anonymous_current` looks
  for room from a cursor on that only moves up: it does not find what was unmapped below.

  Main results:
    • `runs_anonymous_exact` — what the two calls change, after any run,
    • `mapAnonymous_finds_room` — a request succeeds if there is room above the cursor.
-/
import BigOS.Proc.Directory

namespace BigOS.Proc

open BigOS.Lib BigOS.Mm
open Function (update)

variable {s : System} {root addr stop : Nat} {perm : Option UInt8}

/-! ## §1. Ranges that are unmapped or protected. -/

/-- Outside of the range areas and leaves stay.  Inside, there was an anonymous area, and it
and its leaves are gone, or have new permissions and their frames. -/
structure Changed (addr stop : Nat) (perm : Option UInt8) (before after : AddressSpace) : Prop where
  outside : ∀ a, ¬(addr ≤ a ∧ a < stop) → kindAt after.vmas a = kindAt before.vmas a ∧
    after.leaves (pageDown a) = before.leaves (pageDown a)
  inside : ∀ a, addr ≤ a → a < stop → ∃ entry, vmaAt before.vmas a = some entry ∧
    entry.backing = .anonymous ∧
    kindAt after.vmas a = perm.map (fun perm => { entry.kind with permissions := perm }) ∧
    after.leaves (pageDown a) = perm.bind fun perm => (before.leaves (pageDown a)).map fun leaf =>
      ⟨leaf.frame, protectAttr perm leaf.attr⟩

/-- A call that fails changes nothing; one that succeeds changes a range of one space, and no
byte of memory. -/
def ExactCall (s : System) (root addr stop : Nat) (perm : Option UInt8) :
    Except Errno Nat × System → Prop
  | (.error _, t) => t = s
  | (.ok _, t) => t.memory = s.memory ∧ ∃ before after, s.spaces root = some before ∧
      t.spaces = update s.spaces root (some after) ∧ Changed addr stop perm before after

theorem pageDown_mem_pagesIn (haddr : pageAligned addr) (hstop : pageAligned stop)
    (a : Nat) : pageDown a ∈ pagesIn addr stop ↔ addr ≤ a ∧ a < stop := by
  rw [mem_pagesIn haddr, and_iff_left (pageAligned_pageDown a)]
  have hsize : PAGE_SIZE = 4096 := rfl
  simp only [pageAligned, pageDown, beq_iff_eq, hsize] at haddr hstop ⊢
  omega

theorem Staged.changed {before : AddressSpace} {staged : VmaCollection}
    {compatible : VmaEntry → Bool} {leaves : Nat → Option Leaf}
    (h : Staged before.layout before.vmas before.vmas staged compatible perm addr stop)
    (hmov : ∀ entry, compatible entry → entry.Movable)
    (haddr : pageAligned addr) (hstop : pageAligned stop)
    (hleaves : ∀ page, leaves page = if page ∈ pagesIn addr stop then
      perm.bind fun perm => (before.leaves page).map fun leaf =>
        ⟨leaf.frame, protectAttr perm leaf.attr⟩
      else before.leaves page) :
    Changed addr stop perm before { before with leaves := leaves, vmas := staged } where
  outside a ha := by
    refine ⟨h.outside a ha, (hleaves _).trans (if_neg ?_)⟩
    rwa [pageDown_mem_pagesIn haddr hstop]
  inside a hlow hhigh := by
    obtain ⟨entry, hentry, hcomp, hkind⟩ := h.inside a hlow hhigh
    have hin := (pageDown_mem_pagesIn haddr hstop a).mpr ⟨hlow, hhigh⟩
    exact ⟨entry, hentry, (hmov entry hcomp).backing, hkind, (hleaves _).trans (if_pos hin)⟩

theorem unmapPages_memory (pages : List Nat) (s : System) :
    (s.unmapPages root pages).memory = s.memory := by
  induction pages generalizing s with
  | nil => rfl
  | cons page rest ih =>
    refine (ih (s.unmapAndFreeUserPage root page)).trans ?_
    unfold System.unmapAndFreeUserPage System.unmapUserPageInRoot
    cases s.readUserLeafInRoot root page with
    | none => rfl
    | some leaf => exact frameRefDec_memory (s.setLeaf root page none) leaf.frame

theorem Inv.unmapAnonymous_exact (h : Inv (.leavesOnly false false) s) (len : Nat)
    (canBlock : Bool) :
    ExactCall s root addr (addr + len) none (s.unmapAnonymousCurrent root addr len canBlock) := by
  obtain ⟨e, he⟩ | ⟨space, stop, staged, hspace, hbounds, hstage, hcall⟩ :=
    unmapAnonymousCurrent_cases s root addr len canBlock
  · rw [he]
    rfl
  obtain ⟨haddr, hstop, _, rfl, _⟩ := lifecycleRangeBounds_some hbounds
  have hstaged := stageAnonymousUnmap_staged (h.areas root space hspace) haddr hstop hstage
  have hgone := (h.unmapAnonymous rfl hspace haddr hstaged fun _ _ _ => rfl).2
  rw [hcall, modifySpace_eq (spaceAt_of hgone)]
  refine ⟨unmapPages_memory _ s, space, _, hspace, ?_,
    hstaged.changed (fun _ => anonymousLifecycle_movable) haddr hstop fun _ => rfl⟩
  show update (s.unmapPages root _).spaces root _ = _
  rw [hgone, Function.update_idem]
  rfl

theorem Inv.protectAnonymous_exact (h : Inv (.leavesOnly false false) s) (len permissions : Nat)
    (canBlock : Bool) : ExactCall s root addr (addr + len) (some (UInt8.ofNat permissions))
      (s.protectAnonymousCurrent root addr len permissions canBlock) := by
  obtain ⟨e, he⟩ | ⟨space, stop, staged, hspace, hbounds, hstage, hcall⟩ :=
    protectAnonymousCurrent_cases s root addr len permissions canBlock
  · rw [he]
    rfl
  obtain ⟨haddr, hstop, _, rfl, _⟩ := lifecycleRangeBounds_some hbounds
  have hstaged := stageAnonymousProtect_staged (h.areas root space hspace) haddr hstop hstage
  rw [hcall, h.protectPages_eq hspace]
  exact ⟨rfl, space, _, hspace, rfl,
    hstaged.changed (fun _ => anonymousLifecycle_movable) haddr hstop fun _ => rfl⟩

/-- After any run, a range is unmapped or protected as a whole or nothing changes. -/
theorem runs_anonymous_exact (hboot : s.Booted) (ops : List Op) (root addr len : Nat)
    (canBlock : Bool) :
    let t := s.runOps ops
    ExactCall t root addr (addr + len) none (t.unmapAnonymousCurrent root addr len canBlock) ∧
      ∀ permissions, ExactCall t root addr (addr + len) (some (UInt8.ofNat permissions))
        (t.protectAnonymousCurrent root addr len permissions canBlock) :=
  have h := (runs_effects hboot ops).inv (hboot.inv _)
  ⟨h.unmapAnonymous_exact len canBlock, fun permissions =>
    h.protectAnonymous_exact len permissions canBlock⟩

/-- A page is mapped, and unmapped. -/
theorem runs_anonymous_exact_mappedRun :
    let t := emptySystem.runOps mappedRun
    (t.unmapAnonymousCurrent 1 0x1000000 4096 true).1.toOption = some 0 ∧
      ExactCall t 1 0x1000000 0x1001000 none (t.unmapAnonymousCurrent 1 0x1000000 4096 true) :=
  ⟨by decide +kernel, (runs_anonymous_exact emptySystem_booted mappedRun 1 0x1000000 4096 true).1⟩

/-! ## §2. Room for an area. -/

/-- The process runs and has a free slot, and no area meets the `len` bytes at the cursor, which
lie in the window. -/
def System.roomAtCursor (s : System) (root len : Nat) : Bool :=
  match s.spaces root with
  | none => false
  | some space =>
    let base := space.vmas.anonNext
    space.running && decide (space.vmas.count < MAX_VMAS) &&
      decide (base + len ≤ USER_ANON_BASE + USER_ANON_MAX_PAGES * PAGE_SIZE) &&
      !vmasOverlap space.vmas base (base + len)

/-- With fewer than `MAX_VMAS` areas there is a slot for another one. -/
theorem VmasOk.addVma {layout : UserRuntimeLayout} {vmas : VmaCollection}
    (h : VmasOk layout vmas) (entry : VmaEntry) (hcount : vmas.count < MAX_VMAS)
    (hbounds : vmaRangeBounds entry.start entry.stop)
    (hperm : permissionsWx entry.permissions = false)
    (hfree : vmasOverlap vmas entry.start entry.stop = false) :
    (internalAddVma vmas entry).isSome := by
  have hslot : ∃ i ∈ List.range MAX_VMAS, (vmas.entries i).isNone := by
    by_contra hnone
    have hfull : ∀ i < MAX_VMAS, (vmas.entries i).isSome := by
      intro i hi
      cases hentry : vmas.entries i with
      | none => exact absurd ⟨i, List.mem_range.mpr hi, by rw [hentry]; rfl⟩ hnone
      | some => rfl
    rw [← Slots.occupied_eq_full, ← h.count] at hfull
    omega
  simpa [internalAddVma, hbounds, hperm, hfree, Nat.not_le.mpr hcount] using hslot

/-- A request of whole pages succeeds, after any run, if there is room for it at the cursor. -/
theorem mapAnonymous_finds_room (hboot : s.Booted) (ops : List Op) {root len permissions : Nat}
    (hpos : 0 < len) (hlen : pageAligned len = true)
    (hperm : permissionsSupported (UInt8.ofNat permissions) = true)
    (hroom : (s.runOps ops).roomAtCursor root len = true) :
    ∃ base, ((s.runOps ops).mapAnonymousCurrent root len permissions 0 true).1 = .ok base := by
  have hinv := (runs_effects hboot ops).inv (hboot.inv _)
  generalize s.runOps ops = t at hinv hroom ⊢
  rcases hspace : t.spaces root with _ | space
  · simp [System.roomAtCursor, hspace] at hroom
  simp only [System.roomAtCursor, hspace, Bool.and_eq_true, decide_eq_true_eq,
    Bool.not_eq_true'] at hroom
  obtain ⟨⟨⟨hrun, hcount⟩, hhigh⟩, hfree⟩ := hroom
  have hareas := hinv.areas root space hspace
  obtain ⟨hcommitted, hwindow⟩ := hareas.initialised
  obtain ⟨hbase, hlow⟩ := hareas.cursor
  generalize hbegin : space.vmas.anonNext = base at hbase hlow hhigh hfree
  simp only [pageAligned, beq_iff_eq] at hlen hbase
  have hnum : len % 4096 = 0 ∧ base % 4096 = 0 ∧ 0x1000000 ≤ base ∧ base + len ≤ 0x1020000 :=
    ⟨hlen, hbase, hlow, hhigh⟩
  have hwx : permissionsWx (UInt8.ofNat permissions) = false := by
    unfold permissionsSupported at hperm
    simpa using (Bool.and_eq_true_iff.mp hperm).2
  have hpages : pageUp len = some len := by
    have hup : addOverflow len 4095 = some (len + 4095) := if_pos (by omega)
    refine (congrArg (Option.map pageDown) hup).trans (congrArg some ?_)
    show (len + 4095) / 4096 * 4096 = len
    omega
  have hsum : addOverflow base len = some (base + len) := if_pos (by omega)
  have hbounds : vmaRangeBounds base (base + len) := by
    simp only [vmaRangeBounds, pageAligned, beq_iff_eq, Bool.and_eq_true, decide_eq_true_eq]
    refine ⟨⟨⟨by omega, hbase⟩, show (base + len) % 4096 = 0 by omega⟩, ?_⟩
    exact hhigh.trans (by decide)
  have hinside : rangeInside base (base + len) space.layout.anonymous := by
    rw [hwindow]
    exact Bool.and_eq_true_iff.mpr ⟨rfl, Bool.and_eq_true_iff.mpr
      ⟨decide_eq_true hlow, decide_eq_true hhigh⟩⟩
  -- The search ends where it begins.
  have hrange : findRange space.vmas base len (space.layout.anonymous.base +
      space.layout.anonymous.len) = some (base, base + len) := by
    have hstart : ∀ limit fuel, searchBase space.vmas len limit (fuel + 1) base = base := by
      intro limit fuel
      simp [searchBase, hsum, hfree]
    simp only [findRange, hstart, hsum, hwindow]
    exact if_neg (Nat.not_lt.mpr hhigh)
  have hargs : ¬(len = 0 ∨ USER_ANON_MAX_PAGES * PAGE_SIZE < len) := by
    have hmax : USER_ANON_MAX_PAGES * PAGE_SIZE = 0x20000 := rfl
    omega
  obtain ⟨vmas, hadd⟩ := Option.isSome_iff_exists.mp
    (hareas.addVma ⟨base, base + len, base, base, UInt8.ofNat permissions,
      .anonymous, .anonymous, .none, none, 0⟩ hcount hbounds hwx hfree)
  refine ⟨base, ?_⟩
  simp [System.mapAnonymousCurrent, hspace, hrun, hbegin, hargs, hpages, hperm, hrange,
    internalAddProcessVma, runtimeVmaAllowed, hcommitted, hbounds, hinside, hadd]

theorem mapAnonymous_finds_room_mappedRun :
    ∃ base, ((emptySystem.runOps mappedRun).mapAnonymousCurrent 1 4096 3 0 true).1 = .ok base :=
  mapAnonymous_finds_room emptySystem_booted mappedRun (by decide) rfl (by decide)
    (by decide +kernel)

/-- The window is mapped as a whole and unmapped again: nothing is left in it, and no request
succeeds any more. -/
theorem mapAnonymous_window_used_up :
    let t := emptySystem.runOps [.create 1 smallProgram smallLoad,
      .mapAnonymous 1 0x20000 3 0 true, .unmapAnonymous 1 0x1000000 0x20000 true]
    (t.spaces 1).any (fun space => decide (space.vmas.count < MAX_VMAS) &&
        !vmasOverlap space.vmas USER_ANON_BASE (USER_ANON_BASE + 0x20000)) = true ∧
      (t.mapAnonymousCurrent 1 4096 3 0 true).1.toOption = none := by
  decide +kernel

end BigOS.Proc
