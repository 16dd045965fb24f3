/-
  BigOS.Mm.Paging.Lifecycle — the life of a user address space.

  A root is derived, pages are mapped, unmapped and remapped in it, and it is
  taken down.  As long as no unmap removes the last page of a PML4 slot the
  counts are exact in every state, and taking the root down gives back every
  leaf frame and every table once.

  Main results:
    • `derive_kept` — a derived root starts an address space without pages,
    • `user_address_space_lifecycle` — the whole life,
    • `unmap_last_page_strands_root` — an unmap of the last page of a PML4 slot
      leaves a root that cannot be taken down.
-/
import BigOS.Mm.Paging.Teardown

namespace BigOS.Mm.Paging

open BigOS.Lib.Radix BigOS.Lib.Slots Function PagingState Space List Machine

variable {L : Pages} {T : List PageTableMetadata} {s : PagingState}

/-! ## §1. Paths in the order of the addresses. -/

/-- Two nested loops over ranges are one loop over their product. -/
theorem flatMap_range {α : Type} (a : Nat) {b : Nat} (hb : 0 < b) (g : Nat → Nat → α) :
    (range a).flatMap (fun i => (range b).map (g i)) =
      (range (a * b)).map (fun n => g (n / b) (n % b)) := by
  induction a with
  | zero => simp
  | succ a ih =>
    have hlast : ((range b).map (a * b + ·)).map (fun n => g (n / b) (n % b)) =
        (range b).map (g a) := by
      rw [map_map]
      apply map_congr_left
      intro j hj
      have hlt := mem_range.mp hj
      show g ((a * b + j) / b) ((a * b + j) % b) = g a j
      rw [Nat.add_comm, Nat.add_mul_div_right _ _ hb, Nat.add_mul_mod_self_right,
        Nat.div_eq_of_lt hlt, Nat.mod_eq_of_lt hlt, Nat.zero_add]
    rw [range_succ, flatMap_append, ih, Nat.succ_mul, range_add, map_append, hlast]
    simp

/-- The path of the `n`th page below a table of height `k`. -/
def pathOfPage : Nat → Nat → List Nat
  | 0, n => [n]
  | k + 1, n => n / TABLE_ENTRIES ^ (k + 1) :: pathOfPage k (n % TABLE_ENTRIES ^ (k + 1))

theorem Space.paths_eq {c : Space} {k : Nat} (hk : k ≤ 3) :
    c.paths k = (range (c.width k * TABLE_ENTRIES ^ k)).map (pathOfPage k) := by
  induction k with
  | zero =>
    show (range (c.width 0)).flatMap (fun i => [[i]]) = _
    rw [map_eq_flatMap]
    rfl
  | succ k ih =>
    have hwidth : c.width k = TABLE_ENTRIES := if_neg (by omega)
    have hpow : c.width k * TABLE_ENTRIES ^ k = TABLE_ENTRIES ^ (k + 1) := by
      rw [hwidth, Nat.pow_succ, Nat.mul_comm]
    show (range (c.width (k + 1))).flatMap (below (c.paths k)) = _
    rw [ih (by omega), hpow]
    have hbelow : below ((range (TABLE_ENTRIES ^ (k + 1))).map (pathOfPage k)) =
        fun i => (range (TABLE_ENTRIES ^ (k + 1))).map (fun n => i :: pathOfPage k n) := by
      funext i
      unfold below
      rw [map_map]
      rfl
    rw [hbelow, flatMap_range _ (Nat.pow_pos (by decide))]
    rfl

/-- The number of user pages. -/
def USER_PAGES : Nat := USER_CANONICAL_LIMIT / PAGE_SIZE

theorem pathOfPage_user {n : Nat} (hn : n < USER_PAGES) :
    pathOfPage 3 n = pagePath (n * PAGE_SIZE) := by
  unfold USER_PAGES USER_CANONICAL_LIMIT PAGE_SIZE at hn
  unfold pagePath tablePath pml4Index pdptIndex pdIndex ptIndex
  unfold pathOfPage pathOfPage pathOfPage pathOfPage TABLE_ENTRIES PAGE_SIZE
  simp only [cons_append, nil_append, cons.injEq, and_true]
  refine ⟨?_, ?_, ?_, ?_⟩ <;> omega

/-- The frames mapped in the lower half, in the order of their addresses. -/
def userFrames (m : Machine) (s : PagingState) (root : Nat) : List Nat :=
  (range USER_PAGES).filterMap
    (fun n => (mappedLeaf m s root (n * PAGE_SIZE)).map Descriptor.addr)

theorem leafFrames_user {m : Machine} {root : Nat}
    (hroot : m.directMapped root) (h : Kept m (userSpace root) L T s) :
    leafFrames L [] ((userSpace root).paths 3) = userFrames m s root := by
  unfold leafFrames userFrames
  have hpages : (userSpace root).width 3 * TABLE_ENTRIES ^ 3 = USER_PAGES := by
    show 256 * TABLE_ENTRIES ^ 3 = USER_PAGES
    decide
  rw [paths_eq (Nat.le_refl 3), hpages, filterMap_map]
  apply filterMap_congr
  intro n hn
  have hlt : n < USER_PAGES := mem_range.mp hn
  have hlimit : n * PAGE_SIZE < USER_CANONICAL_LIMIT := by
    unfold USER_PAGES USER_CANONICAL_LIMIT PAGE_SIZE at *
    omega
  show (L ([] ++ pathOfPage 3 n)).map _ = (mappedLeaf m s root (n * PAGE_SIZE)).map _
  rw [nil_append, pathOfPage_user hlt]
  exact congrArg _ (mappedLeaf_eq (c := userSpace root) h hroot (inSlots_user hlimit)).symm

/-! ## §2. Deriving a root. -/

/-- What the registry keeps between calls: distinct frames that are in use, and
no user table without its root. -/
structure Sane (s : PagingState) : Prop where
  nodup : s.frames.Nodup
  inUse : ∀ g ∈ s.frames, g ∈ s.inUse
  rooted : ∀ md ∈ s.tables, md.owner = .userAddressSpace → md.rootPhys ∈ s.frames

theorem sane_of_no_tables (h : s.tables = []) : Sane s := by
  have hframes : s.frames = [] := by
    unfold frames
    rw [h]
    rfl
  refine ⟨?_, ?_, ?_⟩
  · rw [hframes]
    exact nodup_nil
  · rw [hframes]
    exact fun g hg => absurd hg not_mem_nil
  · rw [h]
    exact fun md hmd => absurd hmd not_mem_nil

section

variable {m : Machine} {cr3 root : Nat} {s' : PagingState}

/-- The registered frames of a new root. -/
def PagingState.derived (s : PagingState) (cr3 root : Nat) : PagingState :=
  { s.withFrame root with
    mem := update s.mem root
      (fun i => if i < 256 then Descriptor.zero else s.mem cr3 i)
    tables := s.tables ++ [⟨.userAddressSpace, .pml4, root, root, 0⟩] }

theorem derive_eq (h : deriveUserAddressSpaceRoot m cr3 s = (some root, s')) :
    root ∉ s.inUse ∧ m.directMapped root ∧ s.findTable root = none ∧ s' = s.derived cr3 root := by
  unfold deriveUserAddressSpaceRoot allocFrame at h
  cases halloc : m.alloc s.clock s.inUse with
  | none =>
    rw [halloc] at h
    cases congrArg Prod.fst h
  | some f =>
    rw [halloc] at h
    by_cases hdm : m.directMapped f
    · simp only [hdm, Bool.not_true, Bool.false_eq_true, if_false] at h
      split at h
      · cases congrArg Prod.fst h
      rename_i s2 hreg
      obtain ⟨hroot, rfl⟩ := Prod.mk.inj h
      obtain rfl : f = root := Option.some.inj hroot
      obtain ⟨hfree, _, rfl⟩ := registerTable_eq_some.mp hreg
      exact ⟨m.alloc_fresh _ _ _ halloc, hdm, hfree, rfl⟩
    · rw [Bool.not_eq_true] at hdm
      simp only [hdm, Bool.not_false, if_true] at h
      cases congrArg Prod.fst h

/-- A derived root starts an address space without pages. -/
theorem derive_kept (hs : Sane s) (h : deriveUserAddressSpaceRoot m cr3 s = (some root, s')) :
    m.directMapped root ∧
      Kept m (userSpace root) (fun _ => none) ((userSpace root).foreign s') s' := by
  obtain ⟨hfresh, hdm, hfree, rfl⟩ := derive_eq h
  have hfind : ∀ g, (s.derived cr3 root).findTable g =
      if g = root then some ⟨.userAddressSpace, .pml4, root, root, 0⟩ else s.findTable g := by
    intro g
    exact findTable_addSlot (s := s) ⟨.userAddressSpace, .pml4, root, root, 0⟩ hfree
  have hframes : (s.derived cr3 root).frames = s.frames ++ [root] := by
    show (s.tables ++ [_]).map _ = _
    rw [map_append]
    rfl
  obtain ⟨htree, hleaf⟩ := Tree.init (m := m) (c := userSpace root) (s := s.derived cr3 root)
    (frames_addSlot (s := s) ⟨.userAddressSpace, .pml4, root, root, 0⟩ hs.nodup hfree)
    (by
      intro g hg
      rw [hframes] at hg
      show g ∈ root :: s.inUse
      rcases mem_append.mp hg with hg | hg
      · exact mem_cons_of_mem _ (hs.inUse g hg)
      · exact mem_singleton.mp hg ▸ mem_cons_self)
    mem_cons_self
    ((hfind root).trans (if_pos rfl))
    (by
      -- A slot that names the new root would have it registered already.
      intro g md hmd howner hphys
      by_contra hne
      rw [hfind, if_neg (show g ≠ root from hne)] at hmd
      have hin := hs.rooted md (findTable_some hmd).1 howner
      exact hfresh (hs.inUse _ ((show md.rootPhys = root from hphys) ▸ hin)))
    (by
      intro i hi
      have hlow : i < 256 := (inSlots_root.mp hi).2
      show (update s.mem root _ root i).present = false
      rw [update_self, if_pos hlow]
      rfl)
  exact ⟨hdm, htree, rfl, fun q _ => hleaf q⟩

/-! ## §3. Exact counts. -/

/-- Every table registered for the root counts its present low-half descriptors. -/
def UserAccounted (root : Nat) (s : PagingState) : Prop :=
  ∀ md ∈ s.tables, ownedByRoot root md → md.presentEntries = occupied TABLE_ENTRIES
      (fun i => decide (md.level = .pml4 → i < 256) && (s.mem md.framePhys i).present)

/-- Only the slot of the root says PML4. -/
theorem Tree.level_pml4 (h : Tree m (userSpace root) s) {md : PageTableMetadata}
    (hmd : s.findTable md.framePhys = some md) (hown : ownedByRoot root md) :
    md.level = .pml4 ↔ md.framePhys = root := by
  by_cases hframe : md.framePhys = root
  · have hslot := h.rootSlot
    rw [show (userSpace root).root = md.framePhys from hframe.symm, hmd] at hslot
    have hlevel : md.level = .pml4 := congrArg PageTableMetadata.level (Option.some.inj hslot)
    exact ⟨fun _ => hframe, fun _ => hlevel⟩
  · obtain ⟨k, hk⟩ := Option.isSome_iff_exists.mp (h.node _ md hmd hown.1 hown.2)
    obtain ⟨md', hmd', howns, _⟩ := findTable_of_height hk hframe
    obtain rfl : md = md' := Option.some.inj (hmd.symm.trans hmd')
    exact ⟨fun hlevel => absurd hlevel howns.2.2, fun heq => absurd heq hframe⟩

theorem Tree.userAccounted (h : Tree m (userSpace root) s) : UserAccounted root s := by
  intro md hmem hown
  have hmd := findTable_of_mem h.nodup hmem
  obtain ⟨k, hk⟩ := Option.isSome_iff_exists.mp (h.node _ md hmd hown.1 hown.2)
  rw [h.count _ k md hk hmd]
  apply occupied_congr
  intro i hi
  rw [row_isSome (by rw [hk]; rfl)]
  congr 1
  by_cases hframe : md.framePhys = root
  · have hlevel := (h.level_pml4 hmd hown).mpr hframe
    rw [hframe, Bool.eq_iff_iff, decide_eq_true_eq]
    exact ⟨fun hslot _ => (inSlots_root.mp hslot).2,
      fun hlow => inSlots_root.mpr ⟨Nat.zero_le _, hlow hlevel⟩⟩
  · have hlevel : md.level ≠ .pml4 := fun heq => hframe ((h.level_pml4 hmd hown).mp heq)
    rw [inSlots_of_ne (c := userSpace root) hframe hi]
    exact (decide_eq_true (fun heq => absurd heq hlevel)).symm

/-! ## §4. Taking the root down. -/

/-- What taking a root down has to achieve: success, no table of the root left,
every leaf frame released and every table freed once. -/
def TornDown (m : Machine) (root : Nat) (s : PagingState) (result : Bool × PagingState) : Prop :=
  result.1 ∧ (∀ md ∈ result.2.tables, ¬ownedByRoot root md) ∧
    result.2.released = s.released ++ userFrames m s root ∧
    ∃ ts, result.2.freed = s.freed ++ ts ∧ ts.Nodup ∧
      ∀ g, g ∈ ts ↔ ∃ md ∈ s.tables, md.framePhys = g ∧ ownedByRoot root md

theorem Kept.tornDown (h : Kept m (userSpace root) L T s) (hroot : m.directMapped root)
    (hcr3 : root ≠ cr3) : TornDown m root s (teardownUserAddressSpace m cr3 s root) := by
  obtain ⟨s', ts, hrun, hgone, hreleased, hfreed, hnodup, hts⟩ :=
    teardownUserAddressSpace_spec hroot hcr3 h
  rw [leafFrames_user hroot h] at hreleased
  rw [hrun]
  exact ⟨rfl, hgone, hreleased, ts, hfreed, hnodup, hts⟩

end

/-! ## §5. The whole life. -/

/-- After any respectful sequence of calls on a derived root the counts are
exact, and the root can be taken down. -/
theorem user_address_space_lifecycle (m : Machine) (cr3 root : Nat) (s₀ s₁ : PagingState)
    (hs : Sane s₀) (hderive : deriveUserAddressSpaceRoot m cr3 s₀ = (some root, s₁))
    (ops : List UserOp) (hops : RespectfulRun m root s₁ ops) :
    UserAccounted root (userRun m root s₁ ops) ∧
      ∀ active, root ≠ active → TornDown m root (userRun m root s₁ ops)
        (teardownUserAddressSpace m active (userRun m root s₁ ops) root) := by
  obtain ⟨hroot, hkept⟩ := derive_kept hs hderive
  obtain ⟨L, hkept⟩ := userRun_kept hroot hops ⟨_, hkept⟩
  exact ⟨hkept.tree.userAccounted, fun active hactive => hkept.tornDown hroot hactive⟩

/-- No table registered, and the kernel on the PML4 at `0x2000`. -/
def beforeFirstUser : PagingState := ⟨fun _ _ => Descriptor.zero, [], [0x2000], 0, [], []⟩

/-- The first user root. -/
def firstUser : PagingState :=
  (deriveUserAddressSpaceRoot unlimited 0x2000 beforeFirstUser).2

theorem firstUser_derived :
    deriveUserAddressSpaceRoot unlimited 0x2000 beforeFirstUser = (some 0x3000, firstUser) :=
  rfl

/-- Two pages of one table are mapped, and the first is unmapped. -/
def twoPages : PagingState := userRun unlimited 0x3000 firstUser
  [.map 0x400000 0x90000 .USER_DATA, .map 0x401000 0x91000 .USER_DATA, .unmap 0x400000]

theorem user_address_space_lifecycle_two_pages :
    UserAccounted 0x3000 twoPages ∧ ∀ active, 0x3000 ≠ active → TornDown unlimited 0x3000
      twoPages (teardownUserAddressSpace unlimited active twoPages 0x3000) := by
  apply user_address_space_lifecycle unlimited 0x2000 0x3000 beforeFirstUser firstUser
    (sane_of_no_tables rfl) firstUser_derived
  refine ⟨⟨by decide, rfl⟩, ⟨by decide, rfl⟩, ⟨by decide, .inr ?_⟩, trivial⟩
  -- The second page keeps the slot of the first.
  exact ⟨0x401000, by decide, by decide, by decide, by decide +kernel⟩

/-- One page mapped in the first user root and unmapped again. -/
def mappedOnce : PagingState :=
  userRun unlimited 0x3000 firstUser [.map 0x400000 0x90000 .USER_DATA, .unmap 0x400000]

/-- The root counts one present entry and has none. -/
theorem mappedOnce_count :
    mappedOnce.tables.any (fun md => decide (ownedByRoot 0x3000 md) && md.presentEntries == 1 &&
      occupied TABLE_ENTRIES (fun i => decide (md.level = .pml4 → i < 256) &&
        (mappedOnce.mem md.framePhys i).present) == 0) := by
  decide +kernel

/-- Mapping one page and unmapping it leaves a wrong count, and a root that
cannot be taken down. -/
theorem unmap_last_page_strands_root : Sane beforeFirstUser ∧
    deriveUserAddressSpaceRoot unlimited 0x2000 beforeFirstUser = (some 0x3000, firstUser) ∧
    0x400000 < USER_CANONICAL_LIMIT ∧ ¬UserAccounted 0x3000 (userRun unlimited 0x3000 firstUser
      [.map 0x400000 0x90000 .USER_DATA, .unmap 0x400000]) ∧
    (teardownUserAddressSpace unlimited 0x2000 (userRun unlimited 0x3000 firstUser
      [.map 0x400000 0x90000 .USER_DATA, .unmap 0x400000]) 0x3000).1 = false := by
  refine ⟨sane_of_no_tables rfl, firstUser_derived, by decide, ?_, by decide +kernel⟩
  show ¬UserAccounted 0x3000 mappedOnce
  intro h
  obtain ⟨md, hmd, hfacts⟩ := any_eq_true.mp mappedOnce_count
  simp only [Bool.and_eq_true, beq_iff_eq] at hfacts
  obtain ⟨⟨hown, hone⟩, hzero⟩ := hfacts
  have hcount := h md hmd (of_decide_eq_true hown)
  rw [hone] at hcount
  exact Nat.one_ne_zero (hcount.trans hzero)

end BigOS.Mm.Paging
