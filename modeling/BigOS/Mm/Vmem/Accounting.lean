/-
  BigOS.Mm.Vmem.Accounting — allocating and freeing kernel page ranges, and the
  counts of the kernel's page tables.

  `map_single_page` counts every descriptor it writes, but
  `rollback_kernel_range` clears leaf descriptors without counting them out.
  So the counts are exact in every run in which no mapped page is rolled back
  (`kernel_page_accounting`), and freeing one allocated range is enough to make
  a count wrong (`free_leaves_a_count`).
-/
import BigOS.Mm.Vmem.Mapping

namespace BigOS.Mm.Vmem

open BigOS.Mm.Paging BigOS.Lib.Radix BigOS.Lib.Slots List

variable {used : List MemoryBlock} {paging : PagingState} {n cr3 : Nat} {s : KernelState}

/-! ## §1. The invariant of the kernel's ranges and tables. -/

/-- The kernel's ranges are in order, what is free is not mapped, and the
counts of the kernel's page tables are exact. -/
structure KernelInv (m : Machine) (cr3 : Nat) (T : List PageTableMetadata) (s : KernelState) :
    Prop where
  ranges : ∃ all, all.Nodup ∧ (∀ p ∈ all, KvmemPage p) ∧ Ranges all s.vmem
  backed : ∀ b ∈ s.vmem.usedArea, b.physicalArea ≠ []
  kept : ∃ L, Kept m (kernelSpace cr3) L T s.paging ∧
    ∀ p ∈ areaPages s.vmem.freeArea, pageAt L p = none

section

variable {m : KernelMachine} {T : List PageTableMetadata} {s' : KernelState} {b : MemoryBlock}
  {L : Pages} {pages : Nat}

/-- The lists after a failed `__alloc_pages`. -/
theorem KernelInv.unmoved (h : KernelInv m.toMachine cr3 T s) (hun : Unmoved s s') :
    KernelInv m.toMachine cr3 T s' := by
  obtain ⟨all, hnodup, hkv, hranges⟩ := h.ranges
  obtain ⟨L, hkept, hfree⟩ := h.kept
  refine ⟨⟨all, hnodup, hkv, hranges.unmoved hun⟩, ?_, L, ?_, ?_⟩
  · rw [hun.used]
    exact h.backed
  · rw [hun.paging]
    exact hkept
  · exact fun p hp => hfree p (hun.pages.mem_iff.mp hp)

/-- The facts about a block that `__alloc_pages` has taken. -/
structure Taken (L : Pages) (used : List MemoryBlock) (b : MemoryBlock) : Prop where
  base : b.base = b.base / PAGE_SIZE * PAGE_SIZE
  nonzero : b.base ≠ 0
  kvmem : ∀ i < b.nrPages, KvmemPage (b.base / PAGE_SIZE + i)
  unmapped : ∀ i < b.nrPages, pageAt L (b.base / PAGE_SIZE + i) = none
  alone : ∀ b' ∈ used, b'.base ≠ b.base

theorem KernelInv.taken (h : KernelInv m.toMachine cr3 T s) (hmoved : Moved s s' b pages)
    (hL : ∀ p ∈ areaPages s.vmem.freeArea, pageAt L p = none) : Taken L s.vmem.usedArea b := by
  obtain ⟨all, hnodup, hkv, hranges⟩ := h.ranges
  have hmem : ∀ i < b.nrPages, b.base / PAGE_SIZE + i ∈ areaPages s.vmem.freeArea := by
    intro i hi
    apply hmoved.pages.mem_iff.mp
    apply mem_append_left
    exact MemoryBlock.mem_pages.mpr ⟨Nat.le_add_right _ _, Nat.add_lt_add_left hi _⟩
  have hpages : ∀ i < b.nrPages, KvmemPage (b.base / PAGE_SIZE + i) :=
    fun i hi => hkv _ (hranges.pages.mem_iff.mp (mem_append_left _ (hmem i hi)))
  have hbase : b.base = b.base / PAGE_SIZE * PAGE_SIZE := by
    have halign := hmoved.block.aligned
    unfold PAGE_SIZE at *
    omega
  refine ⟨hbase, ?_, hpages, fun i hi => hL _ (hmem i hi), ?_⟩
  · have hlow := (hpages 0 hmoved.block.pos).1
    intro hzero
    unfold KVMEM_BASE PAGE_SIZE at hlow
    omega
  · -- Its first page would be in both lists.
    intro b' hb' heq
    have hfirst := hmem 0 hmoved.block.pos
    have hused : b.base / PAGE_SIZE + 0 ∈ areaPages s.vmem.usedArea := by
      apply mem_flatMap.mpr
      refine ⟨b', hb', MemoryBlock.mem_pages.mpr ?_⟩
      rw [heq]
      exact ⟨Nat.le_add_right _ _, Nat.add_lt_add_left (hranges.used b' hb').pos _⟩
    have hdisj := disjoint_of_nodup_append (hranges.pages.nodup_iff.mpr hnodup)
    exact hdisj hfirst hused

/-! ## §2. Freeing a block that is not mapped. -/

theorem vmemFree_last (cr3 : Nat) (hused : s.vmem.usedArea = used ++ [b])
    (halone : ∀ b' ∈ used, b'.base ≠ b.base) (hb : b.base ≠ 0) : vmemFree cr3 s b.base =
      ⟨⟨insertMerged { b with physicalArea := [] } s.vmem.freeArea, used,
        s.vmem.nrFreePages + b.nrPages⟩, unmapKernelRange cr3 s.paging b, s.requests⟩ := by
  have hfind : s.vmem.usedArea.find? (fun b' => b'.base == b.base) = some b := by
    rw [hused, List.find?_append]
    have hnone : used.find? (fun b' => b'.base == b.base) = none := by
      rw [List.find?_eq_none]
      intro b' hb'
      simpa using halone b' hb'
    rw [hnone, Option.none_or]
    simp
  have herase : s.vmem.usedArea.eraseP (fun b' => b'.base == b.base) = used := by
    rw [hused, eraseP_append_right _ (fun b' hb' => by simpa using halone b' hb')]
    simp
  unfold vmemFree
  rw [if_neg hb, hfind]
  show (⟨⟨_, s.vmem.usedArea.eraseP _, _⟩, _, _⟩ : KernelState) = _
  rw [herase]

theorem unmapKernelRange_unmapped (hkept : Kept m.toMachine (kernelSpace cr3) L T paging)
    (htaken : Taken L used b) (area : List (Nat × Nat)) :
    unmapKernelRange cr3 paging { b with physicalArea := area } = paging := by
  unfold unmapKernelRange
  split
  · rfl
  have hle : ∀ n, (if n > b.nrPages then b.nrPages else n) ≤ b.nrPages := by
    intro n
    split <;> omega
  show rollbackKernelRange cr3 paging b.base _ = paging
  rw [htaken.base]
  exact rollbackKernelRange_unmapped hkept _
    (fun i hi => htaken.kvmem i (Nat.lt_of_lt_of_le hi (hle _)))
    (fun i hi => htaken.unmapped i (Nat.lt_of_lt_of_le hi (hle _)))

/-- A failed allocation gives its block back; the tables are those of `paging`. -/
theorem KernelInv.giveBack (h : KernelInv m.toMachine cr3 T s) (hmoved : Moved s s' b pages)
    (hkept : Kept m.toMachine (kernelSpace cr3) L T paging)
    (hL : ∀ p ∈ areaPages s.vmem.freeArea, pageAt L p = none) (area : List (Nat × Nat)) :
    KernelInv m.toMachine cr3 T (vmemFree cr3
      ⟨⟨s'.vmem.freeArea, s.vmem.usedArea ++ [{ b with physicalArea := area }],
        s'.vmem.nrFreePages⟩, paging, n⟩ b.base) := by
  have htaken := h.taken hmoved hL
  obtain ⟨all, hnodup, hkv, hranges⟩ := h.ranges
  have hunback : ({ b with physicalArea := [] } : MemoryBlock) = b := by
    have := hmoved.block.unbacked
    cases b
    simp_all
  have hfree : vmemFree cr3 ⟨⟨s'.vmem.freeArea,
      s.vmem.usedArea ++ [{ b with physicalArea := area }], s'.vmem.nrFreePages⟩,
      paging, n⟩ b.base =
      ⟨⟨insertMerged b s'.vmem.freeArea, s.vmem.usedArea, s'.vmem.nrFreePages + b.nrPages⟩,
        paging, n⟩ := by
    have hlast := vmemFree_last cr3 (s := ⟨⟨s'.vmem.freeArea,
      s.vmem.usedArea ++ [{ b with physicalArea := area }], s'.vmem.nrFreePages⟩, paging, n⟩)
      (b := { b with physicalArea := area }) rfl htaken.alone htaken.nonzero
    rw [unmapKernelRange_unmapped hkept htaken area] at hlast
    rw [← hunback]
    exact hlast
  obtain ⟨hpages, hfree'⟩ := insertMerged_spec hmoved.block hmoved.free
  have hback := hpages.trans hmoved.pages
  rw [hfree]
  refine ⟨⟨all, hnodup, hkv, hfree', hranges.used, ?_⟩, h.backed, L, hkept, ?_⟩
  · exact (hback.append_right _).trans hranges.pages
  · exact fun p hp => hL p (hback.mem_iff.mp hp)

/-! ## §3. The physical blocks behind a range. -/

/-- The orders add up to the pages asked for. -/
theorem blockOrders_sum (order n : Nat) : ((blockOrders order n).map (2 ^ ·)).sum = n := by
  induction order generalizing n with
  | zero =>
    unfold blockOrders
    simp
  | succ order ih =>
    unfold blockOrders
    rw [map_append, sum_append, ih, map_replicate, sum_replicate_nat]
    show n / 2 ^ (order + 1) * 2 ^ (order + 1) + n % 2 ^ (order + 1) = n
    exact Nat.div_add_mod' n _

theorem backPages_spec (orders : List Nat) (area : List (Nat × Nat)) (s : KernelState) :
    ∃ ok area' n, backPages m orders area s = (ok, area', ⟨s.vmem, s.paging, n⟩) ∧
      (ok → area'.map (·.2) = area.map (·.2) ++ orders.map (2 ^ ·)) := by
  induction orders generalizing area s with
  | nil => exact ⟨true, area, s.requests, rfl, fun _ => by simp⟩
  | cons order orders ih =>
    unfold backPages
    cases halloc : m.allocBlock s.requests order with
    | none => exact ⟨false, area, s.requests + 1, rfl, fun h => absurd h (by simp)⟩
    | some phys =>
      cases hnew : m.newObject (s.requests + 1) with
      | false =>
        refine ⟨false, area, s.requests + 1 + 1, ?_, fun h => absurd h (by simp)⟩
        simp [KernelState.newObject, hnew]
      | true =>
        obtain ⟨ok, area', n, hback, hsizes⟩ := ih (area ++ [(phys, 2 ^ order)])
          ⟨s.vmem, s.paging, s.requests + 1 + 1⟩
        refine ⟨ok, area', n, ?_, fun hok => ?_⟩
        · simp only [KernelState.newObject, hnew]
          exact hback
        · rw [hsizes hok]
          simp

theorem length_physicalPages (area : List (Nat × Nat)) :
    (physicalPages area).length = (area.map (·.2)).sum := by
  unfold physicalPages
  induction area with
  | nil => rfl
  | cons e area ih =>
    rw [flatMap_cons, length_append, ih, map_cons, sum_cons]
    unfold rangePages
    rw [length_map, length_range]

/-! ## §4. One call. -/

/-- What a call must not do for the counts to stay right: free a range with
pages behind it, or allocate several pages while the page tables they may need
cannot be had. -/
def Harmless (m : KernelMachine) (s : KernelState) : Op → Prop
  | .allocPages pages => pages ≤ 1 ∨ Supplied m.toMachine s.paging (tablesFor pages)
  | .freePages p => ∀ b ∈ s.vmem.usedArea, b.base = p → b.physicalArea = []

theorem setPhysicalArea_last (area : List (Nat × Nat)) (hused : s.vmem.usedArea = used ++ [b])
    (halone : ∀ b' ∈ used, b'.base ≠ b.base) : s.setPhysicalArea b.base area =
      ⟨⟨s.vmem.freeArea, used ++ [{ b with physicalArea := area }], s.vmem.nrFreePages⟩,
        s.paging, s.requests⟩ := by
  unfold KernelState.setPhysicalArea
  have hmap : used.map (fun b' => if b'.base = b.base then
      { b' with physicalArea := area } else b') = used := by
    conv_rhs => rw [← map_id used]
    apply map_congr_left
    intro b' hb'
    rw [if_neg (halone b' hb')]
    rfl
  rw [hused, map_append, hmap]
  simp

section

variable (h : KernelInv m.toMachine cr3 T s)

include h

/-- The range is allocated and mapped. -/
theorem KernelInv.mapped (hmoved : Moved s s' b pages)
    {L' : Pages} (hkept : Kept m.toMachine (kernelSpace cr3) L' T paging)
    (hL : ∀ p ∈ areaPages s.vmem.freeArea, pageAt L p = none)
    (hext : Extends L L' (b.base / PAGE_SIZE) b.nrPages) {area : List (Nat × Nat)}
    (harea : area ≠ []) : KernelInv m.toMachine cr3 T
      ⟨⟨s'.vmem.freeArea, s.vmem.usedArea ++ [{ b with physicalArea := area }],
        s'.vmem.nrFreePages⟩, paging, n⟩ := by
  have htaken := h.taken hmoved hL
  obtain ⟨all, hnodup, hkv, hranges⟩ := h.ranges
  refine ⟨⟨all, hnodup, hkv, hranges.moved hmoved area⟩, ?_, L', hkept, ?_⟩
  · intro b' hb'
    rcases mem_append.mp hb' with hb' | hb'
    · exact h.backed b' hb'
    · obtain rfl : b' = _ := by simpa using hb'
      exact harea
  · -- What is still free is not one of the pages just mapped.
    intro p hp
    have hold : p ∈ areaPages s.vmem.freeArea := hmoved.pages.mem_iff.mp (mem_append_right _ hp)
    have hkvp : KvmemPage p := hkv p (hranges.pages.mem_iff.mp (mem_append_left _ hold))
    rw [← hL p hold]
    apply hext.other
    intro i hi heq
    have hpi := pagePath_inj hkvp (htaken.kvmem i hi) heq
    have hfreeNodup : (b.pages ++ areaPages s'.vmem.freeArea).Nodup := by
      apply hmoved.pages.nodup_iff.mpr
      exact (nodup_append.mp (hranges.pages.nodup_iff.mpr hnodup)).1
    have hblock : p ∈ b.pages := by
      rw [hpi]
      exact MemoryBlock.mem_pages.mpr ⟨Nat.le_add_right _ _, Nat.add_lt_add_left hi _⟩
    exact disjoint_of_nodup_append hfreeNodup hblock hp

theorem allocKernelPages_inv (hsup : pages ≤ 1 ∨ Supplied m.toMachine s.paging (tablesFor pages)) :
    KernelInv m.toMachine cr3 T (allocKernelPages m cr3 s pages true).2 := by
  obtain ⟨all, hnodup, hkv, hranges⟩ := h.ranges
  obtain ⟨L, hkept, hL⟩ := h.kept
  unfold allocKernelPages
  rcases allocPages_spec m s pages hranges.free with
    ⟨s', halloc, hun⟩ | ⟨b, s', halloc, hmoved⟩ <;> rw [halloc]
  · exact h.unmoved hun
  · have htaken := h.taken hmoved hL
    obtain ⟨ok, area, n, hback, hsizes⟩ :=
      backPages_spec (m := m) (blockOrders BUDDY_MAX_ORDER b.nrPages) [] s'
    have hset := setPhysicalArea_last (s := ⟨s'.vmem, s'.paging, n⟩) area hmoved.used htaken.alone
    cases ok with
    | false =>
      -- A physical block or its node was refused; nothing is mapped yet.
      simp only [hback, hset, Bool.not_true, Bool.false_eq_true, if_false]
      rw [hmoved.paging]
      exact h.giveBack hmoved hkept hL area
    | true =>
      have hlen : (physicalPages area).length = b.nrPages := by
        rw [length_physicalPages, hsizes rfl, map_nil, nil_append, blockOrders_sum]
      have harea : area ≠ [] := by
        rintro rfl
        have hzero : b.nrPages = 0 := hlen.symm
        exact absurd hmoved.block.pos (by omega)
      simp only [hback, hset, Bool.not_true, Bool.false_eq_true, if_false, mapKernelRange]
      rw [hmoved.paging]
      have hmap := mapPages_spec (p := b.base / PAGE_SIZE) hkept
        (by rw [hlen]; exact htaken.kvmem) (by rw [hlen]; exact htaken.unmapped)
        (by rw [hlen, hmoved.size]; exact hsup)
      rw [← htaken.base] at hmap
      rcases hmap with ⟨L', paging, hmap, hkept', hext⟩ | ⟨paging, hmap, hkept'⟩ <;> rw [hmap]
      · rw [hlen] at hext
        exact h.mapped hmoved hkept' hL hext harea
      · exact h.giveBack hmoved hkept' hL area

/-- A harmless call keeps the invariant. -/
theorem step_inv {op : Op} (hop : Harmless m s op) :
    KernelInv m.toMachine cr3 T (step m cr3 s op) := by
  cases op with
  | allocPages => exact allocKernelPages_inv h hop
  | freePages p =>
    -- Every used range has pages behind it, so the address is not one.
    have hnone : s.vmem.usedArea.find? (fun b => b.base == p) = none := by
      rw [List.find?_eq_none]
      intro b hb heq
      exact h.backed b hb (hop b hb (by simpa using heq))
    show KernelInv m.toMachine cr3 T (vmemFree cr3 s p)
    unfold vmemFree
    rw [hnone]
    split <;> exact h

end

end

/-! ## §5. Runs. -/

/-- Every call of the sequence is harmless in the state it is made in. -/
def HarmlessRun (m : KernelMachine) (cr3 : Nat) : KernelState → List Op → Prop
  | _, [] => True
  | s, op :: ops => Harmless m s op ∧ HarmlessRun m cr3 (step m cr3 s op) ops

theorem run_inv {m : KernelMachine} {T : List PageTableMetadata} {ops : List Op}
    (h : KernelInv m.toMachine cr3 T s) (hops : HarmlessRun m cr3 s ops) :
    KernelInv m.toMachine cr3 T (run m cr3 s ops) := by
  induction ops generalizing s with
  | nil => exact h
  | cons op ops ih => exact ih (step_inv h hops.1) hops.2

/-- The kernel after `init_vmem`: the whole kernel range is one free block, no
kernel page table is registered, and the boot PML4 `cr3`, itself not
registered, has nothing at the entries of the kernel range.  Tables of user
address spaces may be there. -/
structure Booted (cr3 : Nat) (s : KernelState) : Prop where
  vmem : s.vmem = VMem.init
  frames : s.paging.frames.Nodup
  inUse : ∀ g ∈ s.paging.frames, g ∈ s.paging.inUse
  noKernelTable : ∀ md ∈ s.paging.tables, md.owner ≠ .kernelVmem
  rootInUse : cr3 ∈ s.paging.inUse
  rootStatic : s.paging.findTable cr3 = none
  rootEmpty : ∀ i, 272 ≤ i → i < 274 → (s.paging.mem cr3 i).present = false

theorem Booted.inv (m : KernelMachine) (h : Booted cr3 s) :
    KernelInv m.toMachine cr3 ((kernelSpace cr3).foreign s.paging) s := by
  have hempty : ∀ i, (kernelSpace cr3).inSlots (kernelSpace cr3).root i →
      (s.paging.mem cr3 i).present = false := by
    intro i hi
    have hslots := Space.inSlots_root.mp hi
    exact h.rootEmpty i hslots.1 hslots.2
  obtain ⟨htree, hleaf⟩ := Tree.init (m := m.toMachine) (c := kernelSpace cr3) h.frames h.inUse
    h.rootInUse h.rootStatic
    (fun g md hfind howner _ =>
      absurd howner (h.noKernelTable md (PagingState.findTable_some hfind).1)) hempty
  refine ⟨⟨kvmemPages, nodup_range', fun p hp => mem_range'_1.mp hp, ?_⟩, ?_, fun _ => none,
    ⟨htree, rfl, fun q _ => hleaf q⟩, fun p _ => rfl⟩
  · rw [h.vmem]
    exact Ranges.init
  · rw [h.vmem]
    exact fun b hb => absurd hb (not_mem_nil)

/-- The count of every kernel page table is the number of its present
descriptors; so a table whose count is at the limit has no free entry. -/
def Accounted (s : PagingState) : Prop :=
  ∀ md ∈ s.tables, md.owner = .kernelVmem →
    md.presentEntries = occupied TABLE_ENTRIES (fun i => (s.mem md.framePhys i).present) ∧
    (md.presentEntries = TABLE_ENTRIES → ∀ i < TABLE_ENTRIES, (s.mem md.framePhys i).present)

theorem KernelInv.accounted {m : Machine} {T : List PageTableMetadata} (h : KernelInv m cr3 T s)
    (hT : ∀ md ∈ T, md.owner ≠ .kernelVmem) : Accounted s.paging := by
  obtain ⟨L, hkept, _⟩ := h.kept
  intro md hmd howner
  have hfind := PagingState.findTable_of_mem hkept.tree.nodup hmd
  have hroot : md.rootPhys = cr3 := by
    by_contra hne
    have hforeign : md ∈ (kernelSpace cr3).foreign s.paging := by
      apply mem_filter.mpr
      simp [hmd, kernelSpace, hne]
    rw [hkept.foreign] at hforeign
    exact hT md hforeign howner
  obtain ⟨k, hk⟩ := Option.isSome_iff_exists.mp (hkept.tree.node _ md hfind howner hroot)
  -- The boot PML4 has no slot, so this is a table below it.
  have hne : md.framePhys ≠ cr3 := by
    intro heq
    have hslot : (s.paging.findTable cr3).map PageTableMetadata.kind = none := hkept.tree.rootSlot
    rw [← heq, hfind] at hslot
    cases hslot
  have hcount : md.presentEntries =
      occupied TABLE_ENTRIES (fun i => (s.paging.mem md.framePhys i).present) := by
    rw [hkept.tree.count _ k md hk hfind]
    apply occupied_congr
    intro i hi
    rw [Space.row_isSome (by rw [hk]; rfl)]
    have hslot : (kernelSpace cr3).inSlots md.framePhys i := Space.inSlots_of_ne hne hi
    rw [hslot, Bool.true_and]
  refine ⟨hcount, fun hfull => ?_⟩
  rw [hcount, occupied_eq_full] at hfull
  exact hfull

/-- **Kernel page-table accounting.**  In a sequence of `alloc_kernel_pages`
and `free_pages` calls that never rolls a mapped page back, the count of every
kernel page table is exact after each call. -/
theorem kernel_page_accounting (m : KernelMachine) (cr3 : Nat) (s : KernelState)
    (hboot : Booted cr3 s) (ops : List Op) (hops : HarmlessRun m cr3 s ops) :
    Accounted (run m cr3 s ops).paging := by
  apply (run_inv (hboot.inv m) hops).accounted
  intro md hmd
  exact hboot.noKernelTable md (mem_filter.mp hmd).1

/-! ## §6. A machine that never refuses. -/

/-- A machine with frames, blocks and objects for every request. -/
def plenty : KernelMachine where
  toMachine := Machine.unlimited
  allocBlock n _ := some (0x100000000 + n * 0x400000)
  newObject _ := true

/-- The kernel just booted, on the boot PML4 at `0x2000`. -/
def justBooted : KernelState where
  vmem := VMem.init
  paging := ⟨fun _ _ => Descriptor.zero, [], [0x2000], 0, [], []⟩
  requests := 0

theorem justBooted_booted : Booted 0x2000 justBooted :=
  ⟨rfl, nodup_nil, fun _ hg => absurd hg (not_mem_nil),
    fun _ hmd => absurd hmd (not_mem_nil), mem_singleton.mpr rfl, rfl, fun _ _ _ => rfl⟩

theorem kernel_page_accounting_two_allocations :
    Accounted (run plenty 0x2000 justBooted [.allocPages 3, .allocPages 1]).paging :=
  kernel_page_accounting plenty 0x2000 justBooted justBooted_booted _
    ⟨.inr ⟨by decide, fun _ used _ _ => ⟨used.foldr max 0 + PAGE_SIZE, rfl, rfl⟩⟩,
      .inl (Nat.le_refl 1), trivial⟩

/-- One page allocated and freed again. -/
def oneCycle : KernelState := run plenty 0x2000 justBooted [.allocPages 1, .freePages KVMEM_BASE]

/-- The page table of the page counts one present entry and has none. -/
theorem oneCycle_count :
    oneCycle.paging.tables.any (fun md => md.owner == .kernelVmem && md.presentEntries == 1 &&
      occupied TABLE_ENTRIES (fun i => (oneCycle.paging.mem md.framePhys i).present) == 0) =
      true := by
  decide +kernel

/-- Freeing one allocated page leaves its count behind. -/
theorem free_leaves_a_count : Booted 0x2000 justBooted ∧
    ¬Accounted (run plenty 0x2000 justBooted [.allocPages 1, .freePages KVMEM_BASE]).paging := by
  refine ⟨justBooted_booted, ?_⟩
  show ¬Accounted oneCycle.paging
  intro h
  obtain ⟨md, hmd, hfacts⟩ := any_eq_true.mp oneCycle_count
  simp only [Bool.and_eq_true, beq_iff_eq] at hfacts
  obtain ⟨⟨howner, hone⟩, hzero⟩ := hfacts
  have hcount := (h md hmd howner).1
  rw [hone] at hcount
  exact Nat.one_ne_zero (hcount.trans hzero)

end BigOS.Mm.Vmem
