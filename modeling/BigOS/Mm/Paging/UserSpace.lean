/-
  BigOS.Mm.Paging.UserSpace — mapping, unmapping and remapping user pages.

  Each call changes the mapping of its own page only and keeps the counts
  exact, with one exception: when `reclaim_empty_tables_in_root` cuts an empty
  PDPT off the root it does not count it out of the root.  So an unmap that
  leaves its PML4 slot without any page is excluded here.

  Main results:
    • `userStep_kept` — one call,
    • `userRun_kept` — a sequence of calls.
-/
import BigOS.Mm.Paging.Walk

namespace BigOS.Mm.Paging

open BigOS.Lib.Radix BigOS.Lib.Slots Descriptor Space

/-! ## §1. The lower half of a user root. -/

/-- The address space of a user root: its lower half. -/
def userSpace (root : Nat) : Space where
  owner := .userAddressSpace
  root := root
  registered := true
  lo := 0
  hi := 256
  hi_le := by decide

/-- `USER_CANONICAL_LIMIT`: addresses below it are in the lower half. -/
def USER_CANONICAL_LIMIT : Nat := 0x0000800000000000

theorem inSlots_user {root v : Nat} (hv : v < USER_CANONICAL_LIMIT) :
    (userSpace root).inSlots (userSpace root).root (pml4Index v) := by
  have hindex : pml4Index v < 256 := by
    unfold USER_CANONICAL_LIMIT at hv
    unfold pml4Index TABLE_ENTRIES
    omega
  exact inSlots_root.mpr ⟨Nat.zero_le _, hindex⟩

/-- The four indices of a user page determine it. -/
theorem pagePath_ne {v w : Nat} (hv : v < USER_CANONICAL_LIMIT) (hw : w < USER_CANONICAL_LIMIT)
    (hne : v / PAGE_SIZE ≠ w / PAGE_SIZE) : pagePath v ≠ pagePath w := by
  intro h
  unfold pagePath tablePath pml4Index pdptIndex pdIndex ptIndex TABLE_ENTRIES at h
  simp only [List.cons_append, List.nil_append, List.cons.injEq, and_true] at h
  unfold USER_CANONICAL_LIMIT at hv hw
  unfold PAGE_SIZE at hne
  omega

section

variable {m : Machine} {c : Space} {L : Pages} {T : List PageTableMetadata}
  {s : PagingState} {v t i k f : Nat} {d : Descriptor}

/-! ## §2. Reading the tables through the direct map. -/

/-- `root_pte` walks the tables of the address space. -/
theorem rootPt_eq (h : Tree m c s) (hroot : m.directMapped c.root)
    (hv : c.inSlots c.root (pml4Index v)) :
    rootPt m s c.root v = (c.forest s).follow addr (tablePath v) c.root := by
  unfold rootPt tablePath
  rw [follow_cons h.wf.atRoot hv, hroot]
  rcases h4 : (s.mem c.root (pml4Index v)).present with _ | _
  · rfl
  obtain ⟨hheight, _, hslots⟩ := h.below h.wf.atRoot hv h4
  have hdm := h.direct _ _ hheight (by omega)
  simp only [Bool.not_true, Bool.or_self, Bool.false_eq_true, if_false, if_true, hdm]
  rw [follow_cons hheight (hslots _ (pdptIndex_lt v))]
  rcases h3 : (s.mem (s.mem c.root (pml4Index v)).addr (pdptIndex v)).present with _ | _
  · rfl
  obtain ⟨hheight', _, hslots'⟩ := h.below hheight (hslots _ (pdptIndex_lt v)) h3
  have hdm' := h.direct _ _ hheight' (by omega)
  simp only [Bool.not_true, Bool.or_self, Bool.false_eq_true, if_false, if_true, hdm']
  rw [follow_cons hheight' (hslots' _ (pdIndex_lt v))]
  rcases h2 : (s.mem (s.mem (s.mem c.root (pml4Index v)).addr (pdptIndex v)).addr
    (pdIndex v)).present with _ | _
  · rfl
  obtain ⟨hheight'', hsmall, _⟩ := h.below hheight' (hslots' _ (pdIndex_lt v)) h2
  have hdm'' := h.direct _ _ hheight'' (by omega)
  simp only [Bool.not_true, Bool.or_self, Bool.false_eq_true, if_false, if_true, hdm'', hsmall]
  rfl

/-- The page mapped at an address, read as `root_pte` does. -/
def mappedLeaf (m : Machine) (s : PagingState) (root vaddr : Nat) : Option Descriptor :=
  match rootPt m s root vaddr with
  | none => none
  | some pt =>
    if (s.mem pt (ptIndex vaddr)).present then some (s.mem pt (ptIndex vaddr)) else none

section

variable (h : Kept m c L T s) (hroot : m.directMapped c.root) (hv : c.inSlots c.root (pml4Index v))

include h hroot hv

theorem mappedLeaf_eq : mappedLeaf m s c.root v = L (pagePath v) := by
  unfold mappedLeaf
  rw [rootPt_eq h.tree hroot hv]
  cases ht : (c.forest s).follow addr (tablePath v) c.root with
  | none =>
    by_contra hne
    obtain ⟨t, ht'⟩ := h.follow_of_mapped (v := v) (fun hnone => hne hnone.symm)
    rw [ht] at ht'
    cases ht'
  | some =>
    obtain ⟨hheight, hslot⟩ := h.tree.pageTable ht
    show _ = L (tablePath v ++ [ptIndex v])
    rw [← h.row_eq ht rfl, row_def, hheight, hslot]
    rfl

/-- The user leaf of an address is a page mapped there. -/
theorem userLeaf_some (hleaf : userLeaf m s c.root v = some (t, d)) :
    (c.forest s).follow addr (tablePath v) c.root = some t ∧ L (pagePath v) = some d := by
  unfold userLeaf at hleaf
  rw [rootPt_eq h.tree hroot hv] at hleaf
  cases ht : (c.forest s).follow addr (tablePath v) c.root with
  | none =>
    rw [ht] at hleaf
    cases hleaf
  | some pt =>
    rw [ht] at hleaf
    obtain ⟨hheight, hslot⟩ := h.tree.pageTable ht
    by_cases hbad : (!(s.mem pt (ptIndex v)).present || !(s.mem pt (ptIndex v)).attr.user)
    · simp only [hbad, if_true] at hleaf
      cases hleaf
    simp only [hbad] at hleaf
    have hpair : (pt, s.mem pt (ptIndex v)) = (t, d) := by simpa using hleaf
    obtain ⟨rfl, rfl⟩ := Prod.mk.inj hpair
    refine ⟨rfl, ?_⟩
    show L (tablePath v ++ [ptIndex v]) = _
    rw [← h.row_eq ht rfl, row_eq_some (by rw [hheight]; rfl)]
    have hpres : (s.mem pt (ptIndex v)).present := by
      by_contra hno
      simp [hno] at hbad
    exact ⟨hslot, hpres, rfl⟩

end

/-! ## §3. Reclaiming empty tables. -/

theorem PageTableLevel.height_inj {l l' : PageTableLevel} (h : l.height = l'.height) : l = l' := by
  cases l <;> cases l' <;> simp_all [PageTableLevel.height]

section

variable (h : Tree m c s) (hf : c.height s f = some (k + 1)) (hd : (c.forest s).row f i = some d)

include h hf hd

/-- A table below the root is owned by the address space, at its level. -/
theorem Tree.owned (level : PageTableLevel) (hk : level.height = k) :
    s.tableOwnedBy d.addr c.root c.owner level := by
  obtain ⟨hchild, _, hroot, _⟩ := h.child_facts hf hd
  obtain ⟨md, hfind, howns, hlevel⟩ := findTable_of_height hchild hroot
  rw [PagingState.tableOwnedBy_iff]
  exact ⟨md, hfind, howns.1, PageTableLevel.height_inj (hlevel.trans hk.symm), howns.2.1⟩

/-- One stanza: an empty table is cut off, another one stays. -/
theorem reclaimTable_eq (level : PageTableLevel) (hk : level.height = k) :
    reclaimTable s c.root f i d.addr c.owner level =
      if s.tableEmpty d.addr then some (true, s.detached f i d.addr) else none := by
  unfold reclaimTable
  rw [h.owned hf hd level hk, Bool.true_and]
  by_cases hempty : s.tableEmpty d.addr
  · rw [if_pos hempty, if_pos hempty]
    simp only [h.decrement_eq hf hd zero]
    rfl
  · rw [if_neg hempty, if_neg hempty]

/-- Reading the tables of a path, as the loops of the code do. -/
theorem Tree.entry : s.mem f i = d ∧ d.present ∧ c.height s d.addr = some k ∧
      (k < 3 → m.directMapped d.addr) := by
  obtain ⟨_, hpres, hmem⟩ := (row_eq_some (by rw [hf]; rfl)).mp hd
  obtain ⟨hchild, _⟩ := h.child_facts hf hd
  exact ⟨hmem, hmem ▸ hpres, hchild, fun hk => h.direct _ _ hchild hk⟩

end

/-- A page below a table keeps the table from being counted empty. -/
theorem Kept.not_empty (h : Kept m c L T s) (hd : (c.forest s).row c.root i = some d)
    {q : List Nat} (hq : (i :: q).length = 4) (hL : L (i :: q) ≠ none) :
    s.tableEmpty d.addr = false := by
  by_contra hne
  have hempty : s.tableEmpty d.addr := by simpa using hne
  obtain ⟨_, _, hheight, _⟩ := h.tree.entry h.tree.wf.atRoot hd
  apply hL
  rw [← h.leaf _ hq]
  have hq' : q ≠ [] := by
    rintro rfl
    simp at hq
  show (c.forest s).find _ (i :: q) c.root = none
  rw [Forest.find_cons _ i hq', hd]
  exact Forest.find_eq_none_of_row (h.tree.row_of_tableEmpty hheight hempty) q

/-- One stanza: nothing happens, or an empty table is cut off and the tables above stay. -/
theorem Kept.reclaim (h : Kept m c L T s) (hf : c.height s f = some (k + 1))
    (hd : (c.forest s).row f i = some d) (level : PageTableLevel) (hk : level.height = k) :
    reclaimTable s c.root f i d.addr c.owner level = none ∨
      ∃ s', reclaimTable s c.root f i d.addr c.owner level = some (true, s') ∧ Kept m c L T s' ∧
        ∀ g j, c.height s g = some j → k + 1 < j → c.height s' g = some j ∧
          ∀ i', (c.forest s').row g i' = (c.forest s).row g i' := by
  rw [reclaimTable_eq h.tree hf hd level hk]
  by_cases hempty : s.tableEmpty d.addr
  · have hrow := h.tree.row_of_tableEmpty (h.tree.child_facts hf hd).1 hempty
    exact .inr ⟨_, if_pos hempty, h.detach hf hd hrow,
      fun g j hg hj => h.tree.detach_above hf hd hrow hg hj⟩
  · exact .inl (if_neg hempty)

/-- `reclaim_empty_tables_in_root`, when a page of the PML4 slot is left: only
empty page tables and page directories go. -/
theorem reclaim_spec (h : Kept m c L T s) (hroot : m.directMapped c.root)
    (ht : (c.forest s).follow addr (tablePath v) c.root = some t) {q : List Nat}
    (hq : (pml4Index v :: q).length = 4) (hL : L (pml4Index v :: q) ≠ none) :
    ∃ s', reclaimEmptyTablesInRoot m s c.root v c.owner = (true, s') ∧ Kept m c L T s' := by
  obtain ⟨d4, hd4, ht⟩ := Option.bind_eq_some_iff.mp ht
  obtain ⟨d3, hd3, ht⟩ := Option.bind_eq_some_iff.mp ht
  obtain ⟨d2, hd2, _⟩ := Option.bind_eq_some_iff.mp ht
  obtain ⟨hm4, hp4, hh4, hdm4⟩ := h.tree.entry h.tree.wf.atRoot hd4
  obtain ⟨hm3, hp3, hh3, hdm3⟩ := h.tree.entry hh4 hd3
  obtain ⟨hm2, hp2, _, _⟩ := h.tree.entry hh3 hd2
  -- The walk of the code finds the three tables.
  unfold reclaimEmptyTablesInRoot
  simp only [hroot, hp4, hm4, hdm4 (by omega), hp3, hm3, hdm3 (by omega), hp2, hm2, Bool.not_true,
    Bool.false_eq_true, if_false]
  rcases h.reclaim hh3 hd2 .pt rfl with hnone | ⟨s1, hrun1, hkept1, habove1⟩
  · rw [hnone]
    exact ⟨s, rfl, h⟩
  obtain ⟨hh4₁, hrows1⟩ := habove1 d4.addr 2 hh4 (by omega)
  obtain ⟨hroot1, hrootRows1⟩ := habove1 c.root 3 h.tree.wf.atRoot (by omega)
  simp only [hrun1]
  rcases hkept1.reclaim hh4₁ ((hrows1 _).trans hd3) .pd rfl with
    hnone | ⟨s2, hrun2, hkept2, habove2⟩
  · rw [hnone]
    exact ⟨s1, rfl, hkept1⟩
  obtain ⟨_, hrootRows2⟩ := habove2 c.root 3 hroot1 (by omega)
  have hd4₂ := (hrootRows2 (pml4Index v)).trans ((hrootRows1 _).trans hd4)
  -- The page that is left keeps the PDPT.
  have hpdpt : reclaimPdpt s2 c.root (pml4Index v) d4.addr c.owner = s2 := by
    unfold reclaimPdpt
    rw [hkept2.not_empty hd4₂ hq hL, Bool.and_false]
    rfl
  simp only [hrun2, hpdpt]
  exact ⟨s2, rfl, hkept2⟩

/-! ## §4. The calls. -/

theorem mapPageInRoot_kept (h : Kept m c L T s) (howner : c.owner = .userAddressSpace)
    (hroot : m.directMapped c.root) (hv : c.inSlots c.root (pml4Index v))
    (phys : Nat) {attr : PageAttr} (hp : attr.present) :
    ∃ L', Kept m c L' T (mapPageInRoot m c.root s v phys attr).2 := by
  unfold mapPageInRoot
  split
  · exact ⟨L, h⟩
  unfold mapRootPage
  rw [hroot, ← howner]
  rcases mapPage_spec h true hv phys attr hp with ⟨s', hmap, _, hkept, _⟩ | ⟨s', hmap, hkept, _⟩ <;>
    rw [hmap]
  · exact ⟨_, hkept⟩
  · exact ⟨L, hkept⟩

theorem remapUserPageInRoot_kept (h : Kept m c L T s) (hroot : m.directMapped c.root)
    (hv : c.inSlots c.root (pml4Index v)) (phys : Nat) {attr : PageAttr} (hp : attr.present) :
    ∃ L', Kept m c L' T (remapUserPageInRoot m c.root s v phys attr).2 := by
  unfold remapUserPageInRoot
  split
  · exact ⟨L, h⟩
  rcases hleaf : userLeaf m s c.root v with _ | r
  · exact ⟨L, h⟩
  obtain ⟨pt, e⟩ := r
  obtain ⟨ht, hL⟩ := userLeaf_some h hroot hv hleaf
  obtain ⟨hheight, _⟩ := h.tree.pageTable ht
  have hrow : (c.forest s).row pt (ptIndex v) = some e := (h.row_eq ht rfl).trans hL
  have hpres : (⟨descriptorAddr phys, attr⟩ : Descriptor).present := hp
  obtain ⟨htree, hforest⟩ := h.tree.replace hheight hrow hpres (h.tree.wf.setLeaf hheight _)
    fun h0 => absurd rfl h0
  exact ⟨_, h.setLeaf ht rfl htree rfl hforest⟩

/-- An unmap that leaves a page in its PML4 slot. -/
theorem unmapUserPageInRoot_kept (h : Kept m c L T s) (howner : c.owner = .userAddressSpace)
    (hroot : m.directMapped c.root) (hv : c.inSlots c.root (pml4Index v))
    (hleft : userLeaf m s c.root v = none ∨ ∃ q : List Nat, (pml4Index v :: q).length = 4 ∧
      pml4Index v :: q ≠ pagePath v ∧ L (pml4Index v :: q) ≠ none) :
    ∃ L', Kept m c L' T (unmapUserPageInRoot m c.root s v).2 := by
  unfold unmapUserPageInRoot
  split
  · exact ⟨L, h⟩
  rcases hleaf : userLeaf m s c.root v with _ | r
  · exact ⟨L, h⟩
  obtain ⟨pt, e⟩ := r
  obtain ⟨ht, hL⟩ := userLeaf_some h hroot hv hleaf
  obtain ⟨hheight, hslot⟩ := h.tree.pageTable ht
  have hrow : (c.forest s).row pt (ptIndex v) = some e := (h.row_eq ht rfl).trans hL
  have hforest := forest_rewrite (n := s.presentEntries pt - 1) (d := zero) hheight hslot
  -- The leaf is gone; the tables are still there.
  have hkept : Kept m c (L.map (pagePath v) none) T
      ((s.write pt (ptIndex v) zero).setPresentEntries pt (s.presentEntries pt - 1)) :=
    h.setLeaf ht rfl (h.tree.clearLeaf hheight hrow) (foreign_rewrite h.tree hheight) hforest
  have ht' : (c.forest ((s.write pt (ptIndex v) zero).setPresentEntries pt
      (s.presentEntries pt - 1))).follow addr (tablePath v) c.root = some pt := by
    rw [hforest, follow_write h.tree.wf hheight _ (j := 0) h.tree.wf.atRoot]
    exact ht
  rcases hleft with hnone | ⟨q, hq, hqne, hLq⟩
  · rw [hleaf] at hnone
    cases hnone
  have hLq' : L.map (pagePath v) none (pml4Index v :: q) ≠ none := by
    unfold Pages.map
    rw [if_neg hqne]
    exact hLq
  obtain ⟨s', hreclaim, hkept'⟩ := reclaim_spec hkept hroot ht' hq hLq'
  rw [howner] at hreclaim
  simp only [h.tree.decrement_eq hheight hrow zero, hreclaim]
  exact ⟨_, hkept'⟩

end

/-! ## §5. Runs. -/

/-- What a call must respect for the counts to stay right: addresses of the
lower half, mappings that are present, and no unmap of the last page of a PML4
slot. -/
def Respectful (m : Machine) (root : Nat) (s : PagingState) : UserOp → Prop
  | .map vaddr _ attr => vaddr < USER_CANONICAL_LIMIT ∧ attr.present
  | .unmap vaddr => vaddr < USER_CANONICAL_LIMIT ∧ (userLeaf m s root vaddr = none ∨
        ∃ other, other < USER_CANONICAL_LIMIT ∧ other / PAGE_SIZE ≠ vaddr / PAGE_SIZE ∧
          pml4Index other = pml4Index vaddr ∧ mappedLeaf m s root other ≠ none)
  | .remap vaddr _ attr => vaddr < USER_CANONICAL_LIMIT ∧ attr.present

/-- Every call of the sequence is respectful in the state it is made in. -/
def RespectfulRun (m : Machine) (root : Nat) : PagingState → List UserOp → Prop
  | _, [] => True
  | s, op :: ops => Respectful m root s op ∧ RespectfulRun m root (userStep m root s op) ops

section

variable {m : Machine} {root : Nat} {T : List PageTableMetadata} {s : PagingState}

theorem userStep_kept (hroot : m.directMapped root) {op : UserOp}
    (hop : Respectful m root s op) (h : ∃ L, Kept m (userSpace root) L T s) :
    ∃ L, Kept m (userSpace root) L T (userStep m root s op) := by
  obtain ⟨L, h⟩ := h
  cases op with
  | map vaddr phys => exact mapPageInRoot_kept h rfl hroot (inSlots_user hop.1) phys hop.2
  | remap vaddr phys => exact remapUserPageInRoot_kept h hroot (inSlots_user hop.1) phys hop.2
  | unmap vaddr =>
    obtain ⟨hv, hleft⟩ := hop
    apply unmapUserPageInRoot_kept h rfl hroot (inSlots_user hv)
    rcases hleft with hnone | ⟨other, hother, hpage, hslot, hmapped⟩
    · exact .inl hnone
    right
    have heq := mappedLeaf_eq (v := other) h hroot (inSlots_user hother)
    have hpath : pagePath other =
        pml4Index vaddr :: [pdptIndex other, pdIndex other, ptIndex other] := by
      rw [← hslot]
      rfl
    refine ⟨[pdptIndex other, pdIndex other, ptIndex other], rfl, ?_, ?_⟩
    · rw [← hpath]
      exact pagePath_ne hother hv hpage
    · rw [← hpath, ← heq]
      exact hmapped

theorem userRun_kept (hroot : m.directMapped root) {ops : List UserOp}
    (hops : RespectfulRun m root s ops) (h : ∃ L, Kept m (userSpace root) L T s) :
    ∃ L, Kept m (userSpace root) L T (userRun m root s ops) := by
  induction ops generalizing s with
  | nil => exact h
  | cons op ops ih => exact ih hops.2 (userStep_kept hroot hops.1 h)

end

end BigOS.Mm.Paging
