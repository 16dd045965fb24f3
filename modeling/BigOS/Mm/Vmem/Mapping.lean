/-
  BigOS.Mm.Vmem.Mapping — mapping the pages of a kernel range.

  The kernel's page tables are the address space of the active root below the
  entries of the kernel range.  `map_kernel_range` maps a range page by page;
  it does not fail as long as the page allocator and the registry can supply
  the tables the range may need.

  Main results:
    • `mapPages_spec` — the loop maps all pages, or its first page fails,
    • `rollbackKernelRange_unmapped` — clearing pages that are not mapped does
      nothing.
-/
import BigOS.Mm.Paging.Walk
import BigOS.Mm.Vmem.Ranges

namespace BigOS.Mm.Vmem

open BigOS.Mm.Paging BigOS.Lib.Radix Descriptor Space List

/-! ## §1. Addresses of the kernel range. -/

/-- The kernel's page tables below the active root: the entries of the kernel
range are 272 and 273, and the boot PML4 is not registered. -/
def kernelSpace (cr3 : Nat) : Space where
  owner := .kernelVmem
  root := cr3
  registered := false
  lo := 272
  hi := 274
  hi_le := by decide

/-- The page numbers of the kernel range. -/
def KvmemPage (p : Nat) : Prop :=
  KVMEM_BASE / PAGE_SIZE ≤ p ∧ p < KVMEM_BASE / PAGE_SIZE + KVMEM_LEN / PAGE_SIZE

/-- The pages of the kernel range mapped by `L`. -/
def pageAt (L : Pages) (p : Nat) : Option Descriptor := L (pagePath (p * PAGE_SIZE))

theorem inSlots_kvmem {cr3 p : Nat} (hp : KvmemPage p) :
    (kernelSpace cr3).inSlots (kernelSpace cr3).root (pml4Index (p * PAGE_SIZE)) := by
  have hindex : 272 ≤ pml4Index (p * PAGE_SIZE) ∧ pml4Index (p * PAGE_SIZE) < 274 := by
    unfold KvmemPage KVMEM_BASE KVMEM_LEN PAGE_SIZE at hp
    unfold pml4Index TABLE_ENTRIES PAGE_SIZE
    omega
  exact inSlots_root.mpr hindex

/-- The four indices of a page of the kernel range determine it. -/
theorem pagePath_inj {p q : Nat} (hp : KvmemPage p) (hq : KvmemPage q)
    (h : pagePath (p * PAGE_SIZE) = pagePath (q * PAGE_SIZE)) : p = q := by
  unfold pagePath tablePath pml4Index pdptIndex pdIndex ptIndex TABLE_ENTRIES PAGE_SIZE at h
  simp only [cons_append, nil_append, List.cons.injEq, and_true] at h
  unfold KvmemPage KVMEM_BASE KVMEM_LEN PAGE_SIZE at hp hq
  omega

/-- How many table boundaries lie up to a page. -/
def boundaries (p : Nat) : Nat := p / 2 ^ 9 + p / 2 ^ 18 + p / 2 ^ 27

theorem boundaries_mono {p q : Nat} (h : p ≤ q) : boundaries p ≤ boundaries q := by
  unfold boundaries
  omega

/-- The tables a range of this many pages can need at most. -/
def tablesFor (pages : Nat) : Nat :=
  3 + (pages / 2 ^ 9 + 1) + (pages / 2 ^ 18 + 1) + (pages / 2 ^ 27 + 1)

theorem boundaries_le_tablesFor (p n : Nat) :
    3 + (boundaries (p + n) - boundaries p) ≤ tablesFor (n + 1) := by
  have h9 : (p + n) / 2 ^ 9 ≤ p / 2 ^ 9 + (n + 1) / 2 ^ 9 + 1 := by omega
  have h18 : (p + n) / 2 ^ 18 ≤ p / 2 ^ 18 + (n + 1) / 2 ^ 18 + 1 := by omega
  have h27 : (p + n) / 2 ^ 27 ≤ p / 2 ^ 27 + (n + 1) / 2 ^ 27 + 1 := by omega
  unfold boundaries tablesFor
  generalize (p + n) / 2 ^ 9 = a at *
  generalize (p + n) / 2 ^ 18 = b at *
  generalize (p + n) / 2 ^ 27 = e at *
  generalize (n + 1) / 2 ^ 9 = a' at *
  generalize (n + 1) / 2 ^ 18 = b' at *
  generalize (n + 1) / 2 ^ 27 = e' at *
  generalize p / 2 ^ 9 = x at *
  generalize p / 2 ^ 18 = y at *
  generalize p / 2 ^ 27 = z at *
  omega

section

variable {m : Machine} {cr3 n : Nat} {L : Pages} {T : List PageTableMetadata} {s : PagingState}
  {p : Nat}

/-- After a mapped page, the next one needs a new table for each boundary
between the two. -/
theorem missing_next (h : Kept m (kernelSpace cr3) L T s) (hL : pageAt L p ≠ none) :
    ((kernelSpace cr3).forest s).missing addr (tablePath ((p + 1) * PAGE_SIZE)) cr3 ≤
      boundaries (p + 1) - boundaries p := by
  obtain ⟨t, ht⟩ := h.follow_of_mapped hL
  -- The levels the two pages share are there; the others are counted.
  have hshare : ∀ q r q' : List Nat, tablePath (p * PAGE_SIZE) = q ++ r →
      tablePath ((p + 1) * PAGE_SIZE) = q ++ q' → ((kernelSpace cr3).forest s).missing addr
        (tablePath ((p + 1) * PAGE_SIZE)) cr3 ≤ q'.length := by
    intro q r q' hq hq'
    rw [hq, Forest.follow_append] at ht
    obtain ⟨g, hg, _⟩ := Option.bind_eq_some_iff.mp ht
    rw [hq']
    exact Forest.missing_append_le hg
  have h4 : (p + 1) / 2 ^ 27 = p / 2 ^ 27 →
      pml4Index ((p + 1) * PAGE_SIZE) = pml4Index (p * PAGE_SIZE) := by
    intro heq
    unfold pml4Index TABLE_ENTRIES PAGE_SIZE
    omega
  have h3 : (p + 1) / 2 ^ 18 = p / 2 ^ 18 →
      pdptIndex ((p + 1) * PAGE_SIZE) = pdptIndex (p * PAGE_SIZE) := by
    intro heq
    unfold pdptIndex TABLE_ENTRIES PAGE_SIZE
    omega
  have h2 : (p + 1) / 2 ^ 9 = p / 2 ^ 9 →
      pdIndex ((p + 1) * PAGE_SIZE) = pdIndex (p * PAGE_SIZE) := by
    intro heq
    unfold pdIndex TABLE_ENTRIES PAGE_SIZE
    omega
  unfold boundaries
  by_cases hb2 : (p + 1) / 2 ^ 9 = p / 2 ^ 9
  · have hle := hshare (tablePath (p * PAGE_SIZE)) [] [] (by simp)
      (by
        unfold tablePath
        rw [h4 (by omega), h3 (by omega), h2 hb2, append_nil])
    exact Nat.le_trans hle (Nat.zero_le _)
  · by_cases hb3 : (p + 1) / 2 ^ 18 = p / 2 ^ 18
    · have hle := hshare [pml4Index (p * PAGE_SIZE), pdptIndex (p * PAGE_SIZE)]
        [pdIndex (p * PAGE_SIZE)] [pdIndex ((p + 1) * PAGE_SIZE)] rfl
        (by
          unfold tablePath
          rw [h4 (by omega), h3 hb3]
          rfl)
      simp only [length_singleton] at hle
      omega
    · by_cases hb4 : (p + 1) / 2 ^ 27 = p / 2 ^ 27
      · have hle := hshare [pml4Index (p * PAGE_SIZE)]
          [pdptIndex (p * PAGE_SIZE), pdIndex (p * PAGE_SIZE)]
          [pdptIndex ((p + 1) * PAGE_SIZE), pdIndex ((p + 1) * PAGE_SIZE)] rfl
          (by
            unfold tablePath
            rw [h4 hb4]
            rfl)
        simp only [length_cons, length_nil] at hle
        omega
      · have hle : ((kernelSpace cr3).forest s).missing addr
            (tablePath ((p + 1) * PAGE_SIZE)) cr3 ≤ 3 := Forest.missing_le _ _ _
        omega

/-! ## §2. The loop of `map_kernel_range`. -/

/-- The pages of `L'` are those of `L` but for the `n` pages from `p` on, which
are mapped. -/
structure Extends (L L' : Pages) (p n : Nat) : Prop where
  mapped : ∀ i < n, pageAt L' (p + i) ≠ none
  other : ∀ q, (∀ i < n, q ≠ pagePath ((p + i) * PAGE_SIZE)) → L' q = L q

theorem Extends.single (L : Pages) (p : Nat) (d : Descriptor) :
    Extends L (L.map (pagePath (p * PAGE_SIZE)) (some d)) p 1 := by
  constructor
  · intro i hi
    obtain rfl : i = 0 := by omega
    unfold pageAt Pages.map
    simp
  · intro q hq
    have hne : q ≠ pagePath (p * PAGE_SIZE) := by
      have := hq 0 (by omega)
      rwa [Nat.add_zero] at this
    unfold Pages.map
    rw [if_neg hne]

theorem Extends.trans {L L' L'' : Pages} (h : Extends L L' p 1)
    (h' : Extends L' L'' (p + 1) n) (hpages : ∀ i ≤ n, KvmemPage (p + i)) :
    Extends L L'' p (n + 1) := by
  constructor
  · intro i hi
    cases i with
    | zero =>
      have hkeep : pageAt L'' p = pageAt L' p := by
        apply h'.other
        intro i hi heq
        have := pagePath_inj (hpages 0 (Nat.zero_le _)) (q := p + 1 + i)
          (by have := hpages (i + 1) (by omega); rwa [show p + 1 + i = p + (i + 1) by omega]) heq
        omega
      rw [Nat.add_zero, hkeep]
      exact h.mapped 0 (by omega)
    | succ i =>
      rw [show p + (i + 1) = p + 1 + i by omega]
      exact h'.mapped i (by omega)
  · intro q hq
    rw [h'.other q (fun i hi => by
        have := hq (i + 1) (by omega)
        rwa [show p + (i + 1) = p + 1 + i by omega] at this)]
    apply h.other
    intro i hi
    obtain rfl : i = 0 := by omega
    exact hq 0 (by omega)

/-- Behind a page that gets mapped the pages are as before. -/
theorem unmapped_behind (d : Descriptor) (hpages : ∀ i < n + 1, KvmemPage (p + i))
    (hfree : ∀ i < n + 1, pageAt L (p + i) = none) : (∀ i < n, KvmemPage (p + 1 + i)) ∧
      ∀ i < n, pageAt (L.map (pagePath (p * PAGE_SIZE)) (some d)) (p + 1 + i) = none := by
  have hnext : ∀ i, p + (i + 1) = p + 1 + i := fun i => by omega
  refine ⟨fun i hi => hnext i ▸ hpages (i + 1) (by omega), fun i hi => ?_⟩
  rw [← hnext, ← hfree (i + 1) (by omega)]
  apply (Extends.single L p d).other
  intro j hj heq
  obtain rfl : j = 0 := by omega
  have := pagePath_inj (hpages (i + 1) (by omega)) (hpages 0 (by omega)) heq
  omega

/-- The loop maps the pages of a range that is not mapped, if the tables can be had. -/
theorem mapPages_supplied (pages : List Nat) :
    ∀ {L : Pages} {s : PagingState} {p : Nat} (mapped : Nat), Kept m (kernelSpace cr3) L T s →
      (∀ i < pages.length, KvmemPage (p + i)) → (∀ i < pages.length, pageAt L (p + i) = none) →
      (pages ≠ [] → Supplied m s
        (((kernelSpace cr3).forest s).missing addr (tablePath (p * PAGE_SIZE)) cr3 +
          (boundaries (p + (pages.length - 1)) - boundaries p))) →
      ∃ L' s', mapPages m cr3 pages (p * PAGE_SIZE) mapped s =
          (true, mapped + pages.length, s') ∧ Kept m (kernelSpace cr3) L' T s' ∧
        Extends L L' p pages.length := by
  induction pages with
  | nil =>
    intro L s p mapped h _ _ _
    exact ⟨L, s, rfl, h, fun i hi => absurd hi (Nat.not_lt_zero i), fun q _ => rfl⟩
  | cons phys rest ih =>
    intro L s p mapped h hpages hfree hsup
    have hsup := hsup nofun
    rw [length_cons] at hpages hfree hsup ⊢
    have hp : KvmemPage p := hpages 0 (by omega)
    unfold mapPages mapSinglePage
    rcases mapPage_spec h false (inSlots_kvmem hp) phys PageAttr.KERNEL_DEFAULT rfl with
      ⟨s', hmap, _, hkept, hspent⟩ | ⟨s', _, _, hno⟩
    · -- The page is mapped; go on behind it.
      have hext := Extends.single L p ⟨descriptorAddr phys, PageAttr.KERNEL_DEFAULT⟩
      have hmiss := missing_next (p := p) hkept (hext.mapped 0 (by omega))
      have hsup' : rest ≠ [] → Supplied m s'
          (((kernelSpace cr3).forest s').missing addr (tablePath ((p + 1) * PAGE_SIZE)) cr3 +
            (boundaries (p + 1 + (rest.length - 1)) - boundaries (p + 1))) := by
        intro hne
        have hlen := length_pos_of_ne_nil hne
        have hmono := boundaries_mono (show p + 1 ≤ p + rest.length by omega)
        have hmono' := boundaries_mono (Nat.le_add_right p 1)
        refine Supplied.next (hsup.mono ?_) hspent
        rw [show p + 1 + (rest.length - 1) = p + rest.length by omega, Nat.add_sub_cancel]
        show _ + ((kernelSpace cr3).forest s).missing _ _ cr3 ≤ _
        omega
      obtain ⟨hpages', hother⟩ := unmapped_behind _ hpages hfree
      obtain ⟨L', s'', hrest, hkept', hext'⟩ := ih (mapped + 1) hkept hpages' hother hsup'
      refine ⟨L', s'', ?_, hkept', hext.trans hext' (fun i hi => hpages i (Nat.lt_succ_of_le hi))⟩
      have hmap' : mapPage m false .kernelVmem cr3 s (p * PAGE_SIZE) phys
          PageAttr.KERNEL_DEFAULT = (true, s') := hmap
      have hnext : p * PAGE_SIZE + PAGE_SIZE = (p + 1) * PAGE_SIZE := by
        rw [Nat.add_mul p 1, Nat.one_mul]
      rw [hmap']
      show mapPages m cr3 rest (p * PAGE_SIZE + PAGE_SIZE) (mapped + 1) s' = _
      rw [hnext, hrest, Nat.add_assoc, Nat.add_comm 1]
    · exfalso
      rcases hno with hno | hno
      · exact hno (hfree 0 (by omega))
      · exact hno (hsup.mono (Nat.le_add_right _ _))

/-- The loop of `map_kernel_range` over a range that is not mapped: all its
pages get mapped, or it fails at the first page and changes nothing. -/
theorem mapPages_spec {pages : List Nat} (h : Kept m (kernelSpace cr3) L T s)
    (hpages : ∀ i < pages.length, KvmemPage (p + i))
    (hfree : ∀ i < pages.length, pageAt L (p + i) = none)
    (hsup : pages.length ≤ 1 ∨ Supplied m s (tablesFor pages.length)) :
    (∃ L' s', mapPages m cr3 pages (p * PAGE_SIZE) 0 s = (true, pages.length, s') ∧
      Kept m (kernelSpace cr3) L' T s' ∧ Extends L L' p pages.length) ∨
    ∃ s', mapPages m cr3 pages (p * PAGE_SIZE) 0 s = (false, 0, s') ∧
      Kept m (kernelSpace cr3) L T s' := by
  rcases hsup with hone | hsup
  · rcases pages with _ | ⟨phys, _ | ⟨_, _⟩⟩
    · exact .inl ⟨L, s, rfl, h, fun i hi => absurd hi (Nat.not_lt_zero i), fun q _ => rfl⟩
    · unfold mapPages mapSinglePage
      rcases mapPage_spec h false (inSlots_kvmem (hpages 0 Nat.one_pos)) phys
        PageAttr.KERNEL_DEFAULT rfl with ⟨s', hmap, _, hkept, _⟩ | ⟨s', hmap, hkept, _⟩
      · have hmap' : mapPage m false .kernelVmem cr3 s (p * PAGE_SIZE) phys
            PageAttr.KERNEL_DEFAULT = (true, s') := hmap
        exact .inl ⟨_, s', by rw [hmap']; rfl, hkept, Extends.single L p _⟩
      · have hmap' : mapPage m false .kernelVmem cr3 s (p * PAGE_SIZE) phys
            PageAttr.KERNEL_DEFAULT = (false, s') := hmap
        exact .inr ⟨s', by rw [hmap'], hkept⟩
    · simp at hone
  · have hall := mapPages_supplied pages 0 h hpages hfree (fun hne => hsup.mono ?_)
    · rw [Nat.zero_add] at hall
      exact .inl hall
    · have hle : ((kernelSpace cr3).forest s).missing addr
          (tablePath (p * PAGE_SIZE)) cr3 ≤ 3 := Forest.missing_le _ _ _
      have htables := boundaries_le_tablesFor p (pages.length - 1)
      rw [Nat.sub_add_cancel (length_pos_of_ne_nil hne)] at htables
      omega

/-! ## §3. Clearing pages that are not mapped. -/

/-- `mapped_pte` walks the tables of the address space. -/
theorem mappedPt_eq {c : Space} {v : Nat} (h : Tree m c s) (hv : c.inSlots c.root (pml4Index v)) :
    mappedPt s c.root v = (c.forest s).follow addr (tablePath v) c.root := by
  unfold mappedPt tablePath
  rw [follow_cons h.wf.atRoot hv]
  rcases h4 : (s.mem c.root (pml4Index v)).present with _ | _
  · rfl
  obtain ⟨hheight, _, hslots⟩ := h.below h.wf.atRoot hv h4
  simp only [Bool.not_true, Bool.false_eq_true, if_false, if_true]
  rw [follow_cons hheight (hslots _ (pdptIndex_lt v))]
  rcases h3 : (s.mem (s.mem c.root (pml4Index v)).addr (pdptIndex v)).present with _ | _
  · rfl
  obtain ⟨hheight', _, hslots'⟩ := h.below hheight (hslots _ (pdptIndex_lt v)) h3
  rw [follow_cons hheight' (hslots' _ (pdIndex_lt v))]
  cases (s.mem (s.mem (s.mem c.root (pml4Index v)).addr (pdptIndex v)).addr
    (pdIndex v)).present <;> rfl

theorem rollbackPage_unmapped (h : Kept m (kernelSpace cr3) L T s) (hp : KvmemPage p)
    (hL : pageAt L p = none) : rollbackPage cr3 s (p * PAGE_SIZE) = s := by
  set c := kernelSpace cr3
  have hpt := mappedPt_eq (v := p * PAGE_SIZE) h.tree (inSlots_kvmem hp)
  have hcr3 : c.root = cr3 := rfl
  rw [hcr3] at hpt
  unfold rollbackPage
  rw [hpt]
  cases hfollow : (c.forest s).follow addr (tablePath (p * PAGE_SIZE)) cr3 with
  | none => rfl
  | some t =>
    -- The page table is there, its entry is what the page maps to: nothing.
    obtain ⟨hheight, hslot⟩ := h.tree.pageTable (v := p * PAGE_SIZE) hfollow
    have hrow := (h.row_eq (i := ptIndex (p * PAGE_SIZE)) hfollow rfl).trans hL
    have habs := (row_eq_none (by rw [hheight]; rfl) hslot).mp hrow
    show (if (s.mem t (ptIndex (p * PAGE_SIZE))).present then _ else s) = s
    rw [habs]
    rfl

theorem rollbackKernelRange_unmapped (h : Kept m (kernelSpace cr3) L T s) (n : Nat)
    (hpages : ∀ i < n, KvmemPage (p + i)) (hL : ∀ i < n, pageAt L (p + i) = none) :
    rollbackKernelRange cr3 s (p * PAGE_SIZE) n = s := by
  unfold rollbackKernelRange rangePages
  induction n with
  | zero => rfl
  | succ n ih =>
    rw [range_succ, map_append, foldl_append,
      ih (fun i hi => hpages i (by omega)) (fun i hi => hL i (by omega))]
    show rollbackPage cr3 s (p * PAGE_SIZE + n * PAGE_SIZE) = s
    rw [← Nat.add_mul]
    exact rollbackPage_unmapped h (hpages n (Nat.lt_succ_self n)) (hL n (Nat.lt_succ_self n))

end

end BigOS.Mm.Vmem
