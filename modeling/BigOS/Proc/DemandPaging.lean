/-
  BigOS.Proc.DemandPaging — the first access to a page of a lazy area.

  The stack, the heap up to its break and anonymous mappings get their pages when they are
  touched.  A fault is resolved with a page of zeros that no one else has, under two
  conditions that the permissions of the access do not give: the area can be read, since
  every mapping of a page asks for it, and a page of the stack lies below the lowest page
  touched so far, which is where the area keeps its mark.

  Main results:
    • `firstAccess_resolved_iff` — which faults are resolved, and what follows,
    • `stays_run` — a page stays while no call takes it away.
-/
import BigOS.Proc.Runs

namespace BigOS.Proc

open BigOS.Lib BigOS.Mm Function Proc.System Option
open BigOS.Mm.Paging (PageAttr)

variable {page root phys : Nat} {vma : VmaEntry} {s : System} {space : AddressSpace}

/-! ## §1. Mapping a page that is not there. -/

/-- A page in an area that has a permission is a range that has it. -/
theorem rangeAllowed_of_page {vmas : VmaCollection} {perm : UInt8}
    (hvma : vmaAt vmas page = some vma) (hperm : permissionsInclude vma.permissions perm)
    (hinside : page + PAGE_SIZE ≤ vma.stop) (hlimit : vma.stop ≤ USER_LOW_HALF_LIMIT) :
    internalVmaRangeAllowed vmas page PAGE_SIZE perm := by
  have hsize : PAGE_SIZE = 4094 + 1 + 1 := rfl
  have hpos : PAGE_SIZE ≠ 0 := by decide
  have hbig : USER_LOW_HALF_LIMIT < 2 ^ 64 := by decide
  have hend : addOverflow page PAGE_SIZE = some (page + PAGE_SIZE) := by
    unfold addOverflow
    rw [if_pos (by omega)]
  have hvalid : userRangeValid page PAGE_SIZE := by
    unfold userRangeValid
    rw [hend]
    have hle : page + PAGE_SIZE ≤ USER_LOW_HALF_LIMIT := by omega
    simp [hle, hpos]
  have hloop : rangeAllowedFrom vmas perm (page + PAGE_SIZE) PAGE_SIZE page := by
    rw [hsize, rangeAllowedFrom, if_neg (by omega), hvma]
    dsimp only
    rw [hperm, if_neg (by omega), rangeAllowedFrom, if_pos (Nat.le_refl _)]
    have hlt : page < vma.stop := by omega
    simp [hlt]
  unfold internalVmaRangeAllowed
  rw [hvalid, hend]
  simp [hloop, hpos]

/-- When `map_user_page_for_process` maps a page. -/
theorem mapUserPage_eq {attr : PageAttr} {ok : Bool} (hspace : s.spaces root = some space)
    (hvma : vmaAt space.vmas page = some vma) (hinside : page + PAGE_SIZE ≤ vma.stop)
    (hallowed : runtimeVmaAllowed space.layout vma)
    (hread : permissionsInclude vma.permissions VmaPermission.Read)
    (hattr : internalVmaAttrAllowed vma attr) (hpage : pageAligned page)
    (hphys : pageAligned phys) (hleaf : space.leaves page = none) (hok : ok) :
    s.mapUserPageForProcess root page phys attr ok =
      some (s.setLeaf root page (some ⟨phys, attr⟩)) := by
  have hlimit := (runtimeVmaAllowed_bounds hallowed).2.2.2
  have hrange := rangeAllowed_of_page hvma hread hinside hlimit
  have hnone : s.leafAt root page = none := by
    unfold leafAt
    rw [hspace]
    exact hleaf
  unfold mapUserPageForProcess mapPageInRoot
  simp [hspace, hvma, hpage, hphys, hrange, hattr, hallowed, hnone, hok]

/-! ## §2. The fault. -/

/-- A process accesses a page of the stack, of the heap below its break or of an anonymous
mapping, as the permissions of the area have it, and there is no page. -/
structure FirstAccess (s : System) (root addr code : Nat) (space : AddressSpace)
    (vma : VmaEntry) : Prop where
  spaceAt : s.spaces root = some space
  running : space.running
  area : vmaAt space.vmas (pageDown addr) = some vma
  lazyArea : vma.purpose = .stack ∨ vma.purpose = .anonymous ∨
    (vma.purpose = .heap ∧ ∃ stop, pageUp space.vmas.heapBreak = some stop ∧ pageDown addr < stop)
  noLeaf : space.leaves (pageDown addr) = none
  notPresent : code.testBit FAULT_PRESENT = false
  write : code.testBit FAULT_WRITE → permissionsInclude vma.permissions VmaPermission.Write
  fetch : code.testBit FAULT_FETCH → permissionsInclude vma.permissions VmaPermission.Execute
  read : code.testBit FAULT_WRITE = false → code.testBit FAULT_FETCH = false →
    permissionsInclude vma.permissions VmaPermission.Read

/-- The allocations of a fault succeed, with the frame `phys`. -/
structure FrameSupplied (s : System) (env : FaultEnv) (phys : Nat) : Prop where
  canAllocate : env.canAllocate
  frame : env.frame = some phys
  nonzero : phys ≠ 0
  aligned : pageAligned phys
  free : s.allocated phys = false
  direct : s.directMapped phys
  mapOk : env.mapOk

/-- How a lazy area grows, by its purpose. -/
theorem lazy_growth {layout : UserRuntimeLayout} (hallowed : runtimeVmaAllowed layout vma)
    (hlazy : vma.purpose = .stack ∨ vma.purpose = .anonymous ∨ vma.purpose = .heap) :
    vma.backing = .anonymous ∧ (vma.growth = .down ↔ vma.purpose = .stack) := by
  unfold runtimeVmaAllowed at hallowed
  split at hallowed
  · cases hallowed
  split at hallowed
  · cases hallowed
  rcases hlazy with hp | hp | hp <;> rw [hp] at hallowed <;>
    simp only [Bool.and_eq_true, beq_iff_eq] at hallowed
  · exact ⟨hallowed.1.1.2, by simp [hallowed.1.2, hp]⟩
  · exact ⟨hallowed.1.2, by simp [hallowed.2, hp]⟩
  · exact ⟨hallowed.1.1.2, by simp [hallowed.1.2, hp]⟩

section Fault

variable {m : Mode} {addr code : Nat} {env : FaultEnv}

section

variable (h : FirstAccess s root addr code space vma)

include h

theorem FirstAccess.kind :
    vma.purpose = .stack ∨ vma.purpose = .anonymous ∨ vma.purpose = .heap := by
  rcases h.lazyArea with hp | hp | hp
  · exact .inl hp
  · exact .inr (.inl hp)
  · exact .inr (.inr hp.1)

/-- The range gate of a first access. -/
theorem FirstAccess.range_iff (hallowed : runtimeVmaAllowed space.layout vma) :
    faultRangeAllowed space.vmas vma (pageDown addr) ↔
      (vma.purpose = .stack → pageDown addr < vma.materializedStart) := by
  obtain ⟨i, _, hi, hlow, hhigh⟩ := vmaAt_some h.area
  have hgrowth := (lazy_growth hallowed h.kind).2
  unfold faultRangeAllowed
  rcases h.lazyArea with hp | hp | ⟨hp, stop, hup, hbelow⟩
  · have hdown := hgrowth.mpr hp
    simp [hdown, hp, hlow]
  · have hdown : vma.growth ≠ .down := fun hd => absurd (hgrowth.mp hd) (by simp [hp])
    simp [hdown, hp, hlow, hhigh]
  · have hdown : vma.growth ≠ .down := fun hd => absurd (hgrowth.mp hd) (by simp [hp])
    simp [hdown, hp, hlow, hup, hbelow]

/-- A first access gets as far as the range gate. -/
theorem FirstAccess.fault_eq
    (hallowed : runtimeVmaAllowed space.layout vma) (hcan : env.canAllocate) :
    ∃ i, space.vmas.entries i = some vma ∧ s.tryHandleUserPageFault root addr code env =
        if faultRangeAllowed space.vmas vma (pageDown addr) = true then
          s.materializeAnonymousPage root (pageDown addr) i vma env
        else (false, s) := by
  obtain ⟨i, hfind, hi, hlow, hhigh⟩ := vmaAt_some h.area
  have hback := (lazy_growth hallowed h.kind).1
  have hwrite : (code.testBit FAULT_WRITE &&
      !permissionsInclude vma.permissions VmaPermission.Write) = false := by
    cases hbit : code.testBit FAULT_WRITE with
    | false => rfl
    | true => simp [h.write hbit]
  have hfetch : (code.testBit FAULT_FETCH &&
      !permissionsInclude vma.permissions VmaPermission.Execute) = false := by
    cases hbit : code.testBit FAULT_FETCH with
    | false => rfl
    | true => simp [h.fetch hbit]
  refine ⟨i, hi, ?_⟩
  unfold tryHandleUserPageFault
  simp only [h.spaceAt, h.running, hcan, hfind, hi, h.notPresent, hallowed, hback, hwrite, hfetch]
  cases faultRangeAllowed space.vmas vma (pageDown addr) <;> rfl

end

/-- The state in which the page is there. -/
def System.touched (s : System) (root page phys i : Nat) (vma : VmaEntry) : System :=
  ((s.claimFrame phys (fun _ => 0)).setLeaf root page
    (some ⟨phys, anonymousPageAttr vma.permissions⟩)).modifyVma root i (materialized page)

/-- With a frame, the page is there exactly when the area can be read. -/
theorem FirstAccess.materialize (h : FirstAccess s root addr code space vma)
    (hallowed : runtimeVmaAllowed space.layout vma) (hframe : FrameSupplied s env phys) (i : Nat) :
    (permissionsInclude vma.permissions VmaPermission.Read →
      s.materializeAnonymousPage root (pageDown addr) i vma env =
        (true, s.touched root (pageDown addr) phys i vma)) ∧
    ((s.materializeAnonymousPage root (pageDown addr) i vma env).1 →
      permissionsInclude vma.permissions VmaPermission.Read) := by
  set claimed := s.claimFrame phys (fun _ => 0)
  obtain ⟨_, _, _, hlow, hhigh⟩ := vmaAt_some h.area
  have hpage := pageAligned_pageDown addr
  have hbounds := runtimeVmaAllowed_bounds hallowed
  have hsize : PAGE_SIZE = 4096 := rfl
  have hinside : pageDown addr + PAGE_SIZE ≤ vma.stop := by
    have hstop := hbounds.2.2.1
    unfold pageAligned at hpage hstop
    rw [beq_iff_eq, hsize] at hpage hstop
    omega
  have halloc : s.allocUserFrame env.frame =
      some (phys, { s with allocated := update s.allocated phys true }) := by
    have hmod : phys % PAGE_SIZE = 0 := by
      have haligned := hframe.aligned
      unfold pageAligned at haligned
      exact beq_iff_eq.mp haligned
    unfold allocUserFrame
    rw [hframe.frame]
    dsimp only
    rw [if_neg (by simp [hframe.nonzero, hmod, hframe.free])]
  have hfill : fillFrame { s with allocated := update s.allocated phys true } phys
      (fun _ => 0) = some claimed := by
    unfold fillFrame
    rw [if_pos hframe.direct]
    rfl
  unfold materializeAnonymousPage
  rw [halloc]
  dsimp only
  rw [hfill]
  dsimp only
  constructor
  · intro hread
    rw [mapUserPage_eq (s := claimed) h.spaceAt h.area hinside hallowed
      hread (by simp [internalVmaAttrAllowed, anonymousPageAttr]) hpage hframe.aligned h.noLeaf
        hframe.mapOk]
    rfl
  · intro hdone
    cases hmap : claimed.mapUserPageForProcess root (pageDown addr) phys
        (anonymousPageAttr vma.permissions) env.mapOk with
    | none =>
      rw [hmap] at hdone
      cases hdone
    | some =>
      have hspace : claimed.spaces root = some space := h.spaceAt
      have hmapped := mapUserPage_some (m := .leavesOnly false true) rfl hspace h.area hmap
      exact hmapped.1.readable rfl

end Fault

/-! ## §3. A page stays. -/

/-- A root in use is not given to another process. -/
theorem loadSpace_inUse (hroot : (s.spaces root).isSome) (heapBase : Nat)
    (layout : Option UserRuntimeLayout) (areas : List VmaEntry) (sources : List SegmentSource)
    (stack : Option (Nat → UInt8)) (env : LoadEnv) :
    s.loadSpace root heapBase layout areas sources stack env = (some .outOfMemory, s) := by
  unfold loadSpace
  rw [if_pos (by simp [hroot])]

theorem createProcess_inUse (hroot : (s.spaces root).isSome) (program : Program)
    (env : LoadEnv) : ∃ error, s.createProcess root program env = (.error error, s) := by
  unfold createProcess
  split
  · unfold createDynUserProcess
    split
    · exact ⟨_, rfl⟩
    · exact ⟨_, rfl⟩
    · split
      · exact ⟨_, rfl⟩
      split
      · exact ⟨_, rfl⟩
      split
      · exact ⟨_, rfl⟩
      · dsimp only
        rw [loadSpace_inUse hroot]
        exact ⟨_, rfl⟩
  · unfold createElfUserProcess
    split
    · exact ⟨_, rfl⟩
    · dsimp only
      rw [loadSpace_inUse hroot]
      exact ⟨_, rfl⟩

theorem execCurrent_inUse {new : Nat} (hnew : (s.spaces new).isSome) (program : Program)
    (env : ExecEnv) : (s.execCurrentFromElfImage root new program env).2 = s := by
  obtain ⟨error, hcreate⟩ := createProcess_inUse hnew program env.load
  unfold execCurrentFromElfImage
  cases s.spaces root with
  | none => rfl
  | some =>
    dsimp only
    rw [hcreate]
    split
    · rfl
    · split
      · rfl
      · split <;> rfl

/-- An operation that does not take the page from the process. -/
def Op.keepsPage (root page : Nat) (s : System) : Op → Bool
  | .exec r _ _ _ => r != root
  | .reap r => r != root
  | .unmapAnonymous r addr len _ => r != root || page < addr || addr + len ≤ page
  | .brk r newBreak _ => r != root ||
      (s.spaces root).all fun space => newBreak == 0 || newBreak < space.vmas.heapBase ||
        page < newBreak || (vmaAt space.vmas page).all fun vma => vma.purpose != .heap
  | _ => true

/-- The mode that keeps one page. -/
def Mode.keepPage (root page : Nat) : Mode where
  lone := false
  readable := false
  tight := false
  quiet := false
  keeps r p := r == root && p == page
  hold _ := .free

theorem keepPage_free {r : Nat} (hne : r ≠ root) : (Mode.keepPage root page).Free r :=
  ⟨rfl, fun p => by simp [Mode.keepPage, hne]⟩

/-- An operation fits the mode of the page, or does nothing to a root in use. -/
theorem keepsPage_fits {op : Op} (hroot : (s.spaces root).isSome)
    (hok : op.keepsPage root page s) : op.Fits (.keepPage root page) s ∨ s.step op = s := by
  cases op with
  | create r program env =>
    by_cases hr : r = root
    · subst hr
      obtain ⟨error, hcreate⟩ := createProcess_inUse hroot program env
      exact .inr (congrArg Prod.snd hcreate)
    · exact .inl ⟨keepPage_free hr, .of_loose rfl program env⟩
  | exec r new program env =>
    have hr : r ≠ root := by simpa [Op.keepsPage] using hok
    by_cases hnew : new = root
    · subst hnew
      exact .inr (execCurrent_inUse hroot program env)
    · exact .inl ⟨keepPage_free hr, keepPage_free hnew, .of_loose rfl program env.load⟩
  | fault => exact .inl rfl
  | store => exact .inl rfl
  | brk r =>
    refine .inl ⟨rfl, fun space p vma hspace hbase hzero hvma hheap hle => ?_⟩
    by_contra hkeep
    have hboth : r = root ∧ p = page := by simpa [Mode.keepPage] using hkeep
    obtain ⟨rfl, rfl⟩ := hboth
    simp only [Op.keepsPage, bne_self_eq_false, Bool.false_or, hspace, all_some,
      hvma, hheap, Bool.or_false, Bool.or_eq_true, beq_iff_eq, decide_eq_true_eq] at hok
    omega
  | mapAnonymous => exact .inl rfl
  | unmapAnonymous r =>
    refine .inl ⟨rfl, fun p hlow hhigh => ?_⟩
    by_contra hkeep
    have hboth : r = root ∧ p = page := by simpa [Mode.keepPage] using hkeep
    obtain ⟨rfl, rfl⟩ := hboth
    simp only [Op.keepsPage, bne_self_eq_false, Bool.false_or, Bool.or_eq_true,
      decide_eq_true_eq] at hok
    omega
  | protectAnonymous =>
    exact .inl ⟨rfl, fun space _ _ => ⟨nofun, nofun⟩⟩
  | mapFile => exact .inl rfl
  | dynMap => exact .inl rfl
  | dynProtect =>
    exact .inl ⟨rfl, fun space _ _ _ => ⟨nofun, nofun⟩⟩
  | fork parent child env =>
    by_cases hchild : child = root
    · subst hchild
      obtain ⟨space, hspace⟩ := isSome_iff_exists.mp hroot
      refine .inr ?_
      show (s.forkCurrent parent child env).2 = s
      unfold forkCurrent
      rw [hspace]
      cases s.spaces parent <;> rfl
    · exact .inl ⟨nofun, keepPage_free hchild⟩
  | exit => exact .inl rfl
  | reap r =>
    have hr : r ≠ root := by simpa [Op.keepsPage] using hok
    exact .inl (keepPage_free hr)

/-- A page stays mapped in every run whose operations do not take it away. -/
theorem stays_run (ops : List Op) : ∀ s, Inv (.keepPage root page) s → (s.leafAt root page).isSome →
      s.runOk (fun s op => op.keepsPage root page s) ops →
      ((s.runOps ops).leafAt root page).isSome := by
  induction ops with
  | nil => exact fun s _ hleaf _ => hleaf
  | cons op rest ih =>
    intro s h hleaf hok
    have hboth : op.keepsPage root page s ∧
        (s.step op).runOk (fun s op => op.keepsPage root page s) rest = true := by
      simpa [runOk] using hok
    obtain ⟨leaf, hat⟩ := isSome_iff_exists.mp hleaf
    obtain ⟨space, hspace, _⟩ := leafAt_some.mp hat
    have hroot : (s.spaces root).isSome := by simp [hspace]
    rcases keepsPage_fits hroot hboth.1 with hfits | hsame
    · have hkept := (step_effects h hfits).kept h
      obtain ⟨g, hg, _⟩ := hkept.2.pages root page leaf.frame (by simp [Mode.keepPage])
        (owner_leaf hat)
      have hstill : ((s.step op).leafAt root page).isSome := by
        obtain ⟨leaf', hleaf', _⟩ := map_eq_some_iff.mp hg
        simp [hleaf']
      exact ih (s.step op) hkept.1 hstill hboth.2
    · have hrest := hboth.2
      show (((s.step op).runOps rest).leafAt root page).isSome = true
      rw [hsame] at hrest ⊢
      exact ih s h hleaf hrest

/-! ## §4. First accesses in every run. -/

/-- The invariant in a mode that asks for no more. -/
theorem Inv.weaken {m m' : Mode} (h : Inv m s) (hlone : m'.lone → m.lone)
    (hread : m'.readable → m.readable) : Inv m' s := by
  refine ⟨h.exact, h.untracked, h.entries, h.distinct, h.areas, ?_, fun hm => h.lone (hlone hm),
    h.held, h.files⟩
  intro root space page leaf hspace hleaf
  obtain ⟨kind, hok⟩ := h.leaves root space page leaf hspace hleaf
  exact ⟨kind, hok.pageOk, hok.frameOk, hok.area, hok.attr, hok.cached, hok.fixed,
    fun hm => hok.readable (hread hm)⟩

/-- The page is there, with zeros, for this process alone, and stays. -/
structure Resolved (t : System) (root page : Nat) (vma : VmaEntry) : Prop where
  mapped : ∃ f, t.leafAt root page = some ⟨f, anonymousPageAttr vma.permissions⟩ ∧
    (∀ i, t.memory f i = 0) ∧ ∀ o, t.owner o = some f → o = .leaf root page
  stays : ∀ ops, t.runOk (fun s op => op.keepsPage root page s) ops →
    ((t.runOps ops).leafAt root page).isSome

theorem touched_mapped {m : Mode} (h : Inv m s) (hspace : s.spaces root = some space)
    (hfree : s.allocated phys = false) (page i : Nat) (vma : VmaEntry) :
    (s.touched root page phys i vma).leafAt root page =
        some ⟨phys, anonymousPageAttr vma.permissions⟩ ∧
      (s.touched root page phys i vma).memory phys = (fun _ => 0) ∧
      ∀ o, (s.touched root page phys i vma).owner o = some phys → o = .leaf root page := by
  have hclaimed : (s.claimFrame phys (fun _ => 0)).spaces root = some space := hspace
  have hroot := setLeaf_root hclaimed page (some ⟨phys, anonymousPageAttr vma.permissions⟩)
  have hlast := modifyVma_spaces (i := i) hroot (materialized page)
  have howner : (s.touched root page phys i vma).owner =
      update s.owner (.leaf root page) (some phys) := by
    have hsame := owner_update (t := s.touched root page phys i vma) hroot
      (modifySpace_spaces hroot _) rfl (fun _ => rfl)
    rw [hsame, owner_setLeaf hclaimed]
    rfl
  refine ⟨?_, update_self .., fun o ho => ?_⟩
  · unfold leafAt touched
    rw [hlast]
    exact update_self ..
  · by_contra hne
    rw [howner, update_of_ne hne] at ho
    exact h.exact.not_owned hfree o ho

/-- In every state that a run reaches, the fault of a first access is resolved exactly
when the area can be read and, on the stack, the page lies below the mark. -/
theorem firstAccess_resolved_iff {s : System} (hboot : s.Booted) (ops : List Op)
    {root addr code phys : Nat} {space : AddressSpace} {vma : VmaEntry} {env : FaultEnv}
    (haccess : FirstAccess (s.runOps ops) root addr code space vma)
    (hframe : FrameSupplied (s.runOps ops) env phys) :
    (((s.runOps ops).tryHandleUserPageFault root addr code env).1 = true ∧
      Resolved ((s.runOps ops).tryHandleUserPageFault root addr code env).2 root (pageDown addr)
        vma) ↔ (permissionsInclude vma.permissions VmaPermission.Read = true ∧
      (vma.purpose = .stack → pageDown addr < vma.materializedStart)) := by
  have hinv := (runs_effects hboot ops).inv (hboot.inv _)
  generalize s.runOps ops = t at hinv haccess hframe
  have hareas := hinv.areas root space haccess.spaceAt
  obtain ⟨j, _, hj, _, _⟩ := vmaAt_some haccess.area
  have hallowed := hareas.allowed j vma hj
  obtain ⟨i, hi, hfault⟩ := haccess.fault_eq hallowed hframe.canAllocate
  have hrange := haccess.range_iff hallowed
  have hmat := haccess.materialize hallowed hframe i
  have hkeep : Inv (.keepPage root (pageDown addr)) t := hinv.weaken nofun nofun
  have hafter : Inv (.keepPage root (pageDown addr))
      (t.tryHandleUserPageFault root addr code env).2 :=
    (tryHandleUserPageFault_effects hkeep rfl addr code env).inv hkeep
  rw [hfault] at hafter ⊢
  constructor
  · intro hdone
    by_cases hgate : faultRangeAllowed space.vmas vma (pageDown addr)
    · rw [if_pos hgate] at hdone
      exact ⟨hmat.2 hdone.1, hrange.mp hgate⟩
    · rw [if_neg hgate] at hdone
      cases hdone.1
  · intro hcond
    rw [if_pos (hrange.mpr hcond.2), hmat.1 hcond.1] at hafter ⊢
    obtain ⟨hleaf, hzero, hlone⟩ := touched_mapped hinv haccess.spaceAt hframe.free
      (pageDown addr) i vma
    refine ⟨rfl, ⟨phys, hleaf, fun i => congrFun hzero i, hlone⟩, fun later hok => ?_⟩
    exact stays_run later _ hafter (by simp [hleaf]) hok

/-- A check of a first access that can be evaluated. -/
def System.firstWrite (s : System) (root addr : Nat) (vma : VmaEntry) : Bool :=
  (s.spaces root).any fun space => space.running &&
    decide (vmaAt space.vmas (pageDown addr) = some vma) && (space.leaves (pageDown addr)).isNone

theorem firstWrite_access {addr : Nat} (h : s.firstWrite root addr vma)
    (hlazy : vma.purpose = .stack ∨ vma.purpose = .anonymous)
    (hwrite : permissionsInclude vma.permissions VmaPermission.Write) :
    ∃ space, FirstAccess s root addr 6 space vma := by
  unfold firstWrite at h
  rw [any_eq_true] at h
  obtain ⟨space, hspace, hcond⟩ := h
  simp only [Bool.and_eq_true, decide_eq_true_eq, isNone_iff_eq_none] at hcond
  have hlazy' : vma.purpose = .stack ∨ vma.purpose = .anonymous ∨ (vma.purpose = .heap ∧
      ∃ stop, pageUp space.vmas.heapBreak = some stop ∧ pageDown addr < stop) := by
    rcases hlazy with hp | hp
    · exact .inl hp
    · exact .inr (.inl hp)
  exact ⟨space, hspace, hcond.1.1, hcond.1.2, hlazy', hcond.2, rfl, fun _ => hwrite, nofun, nofun⟩

/-- A frame that a small fault is offered. -/
theorem smallFault_supplied (hzero : page ≠ 0) (haligned : pageAligned page)
    (hfree : s.allocated page = false) (hdirect : s.directMapped page) :
    FrameSupplied s (smallFault page) page :=
  ⟨rfl, rfl, hzero, haligned, hfree, hdirect, rfl⟩

def mappedVma : VmaEntry :=
  ⟨0x1000000, 0x1001000, 0x1000000, 0x1000000, 3, .anonymous, .anonymous, .none, none, 0⟩

theorem firstAccess_resolved_mapped :
    ((emptySystem.runOps mappedRun).tryHandleUserPageFault 1 0x1000008 6
      (smallFault 0x1000000)).1 = true ∧
    Resolved ((emptySystem.runOps mappedRun).tryHandleUserPageFault 1 0x1000008 6
      (smallFault 0x1000000)).2 1 (pageDown 0x1000008) mappedVma := by
  have hwrite : (emptySystem.runOps mappedRun).firstWrite 1 0x1000008 mappedVma := by
    decide +kernel
  obtain ⟨space, haccess⟩ := firstWrite_access hwrite (.inr rfl) rfl
  exact (firstAccess_resolved_iff emptySystem_booted mappedRun haccess
    (smallFault_supplied (by decide) (by decide) (by decide +kernel) (by decide +kernel))).mpr
      ⟨rfl, nofun⟩

/-- A process that has touched the third page below the top of its stack. -/
def skippedRun : List Op :=
  [.create 1 smallProgram smallLoad, .fault 1 0x7fc000 6 (smallFault 0x7fc000)]

def skippedVma : VmaEntry := { stackVma with materializedStart := 0x7fc000 }

/-- A mapping that can only be written. -/
def writeOnlyRun : List Op := [.create 1 smallProgram smallLoad, .mapAnonymous 1 4096 2 0 true]

/-- The page above the one that was touched first, and the page of a mapping that can only
be written, are not resolved. -/
theorem firstAccess_not_resolved :
    ((∃ space, FirstAccess (emptySystem.runOps skippedRun) 1 0x7fd000 6 space skippedVma) ∧
      FrameSupplied (emptySystem.runOps skippedRun) (smallFault 0x7fd000) 0x7fd000 ∧
      ((emptySystem.runOps skippedRun).tryHandleUserPageFault 1 0x7fd000 6
        (smallFault 0x7fd000)).1 = false) ∧
    (∃ space, FirstAccess (emptySystem.runOps writeOnlyRun) 1 0x1000000 6 space
        { mappedVma with permissions := VmaPermission.Write }) ∧
      FrameSupplied (emptySystem.runOps writeOnlyRun) (smallFault 0x1000000) 0x1000000 ∧
      ((emptySystem.runOps writeOnlyRun).tryHandleUserPageFault 1 0x1000000 6
        (smallFault 0x1000000)).1 = false := by
  refine ⟨⟨firstWrite_access (by decide +kernel) (.inl rfl) rfl, ?_, by decide +kernel⟩,
    firstWrite_access (by decide +kernel) (.inr rfl) rfl, ?_, by decide +kernel⟩
  · exact smallFault_supplied (by decide) (by decide) (by decide +kernel) (by decide +kernel)
  · exact smallFault_supplied (by decide) (by decide) (by decide +kernel) (by decide +kernel)

end BigOS.Proc
