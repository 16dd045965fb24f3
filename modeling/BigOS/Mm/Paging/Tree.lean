/-
  BigOS.Mm.Paging.Tree — the page tables of one address space as a radix tree,
  and the invariant that their counts are exact.

  A `Space` names the tables that belong together: those registered for one
  owner and one root, below the root entries this address space uses.  Its
  `forest` reads them as a radix tree; `Tree` says that the tree is well formed
  and that every registered table's `present_entries` is the number of its
  present descriptors.  The elementary changes of the code keep `Tree`.

  Main results:
    • `Tree.attach`, `Tree.detach`, `Tree.fillLeaf`, `Tree.clearLeaf`, `Tree.replace`.
-/
import BigOS.Lib.Radix
import BigOS.Mm.Paging.Registry

namespace BigOS.Mm.Paging

open BigOS.Lib.Radix BigOS.Lib.Slots PagingState Descriptor List

/-! ## §1. The forest of an address space. -/

/-- The height of the tables of a level above the pages. -/
def PageTableLevel.height : PageTableLevel → Nat
  | .pt => 0
  | .pd => 1
  | .pdpt => 2
  | .pml4 => 3

/-- A slot apart from its count. -/
def PageTableMetadata.kind (md : PageTableMetadata) : PageTableMetadata :=
  { md with presentEntries := 0 }

/-- One address space: who owns its tables, its root, whether the root is
registered itself, and the root entries `[lo, hi)` it uses. -/
structure Space where
  owner : PageTableOwner
  root : Nat
  registered : Bool
  lo : Nat
  hi : Nat
  hi_le : hi ≤ TABLE_ENTRIES

namespace Space

variable (c : Space)

/-- A slot of a table below the root that belongs to the address space. -/
def Owns (md : PageTableMetadata) : Prop :=
  md.owner = c.owner ∧ md.rootPhys = c.root ∧ md.level ≠ .pml4

instance (md : PageTableMetadata) : Decidable (c.Owns md) := by
  unfold Owns
  infer_instance

/-- The height of a table of the address space. -/
def height (s : PagingState) (g : Nat) : Option Nat :=
  if g = c.root then some 3
  else (s.findTable g).bind fun md => if c.Owns md then some md.level.height else none

/-- The entries of a table that belong to the address space. -/
def inSlots (f i : Nat) : Bool :=
  if f = c.root then decide (c.lo ≤ i) && decide (i < c.hi) else decide (i < TABLE_ENTRIES)

/-- The tables of the address space and their present descriptors. -/
def forest (s : PagingState) : Forest Nat Descriptor where
  height := c.height s
  row f i :=
    if (c.height s f).isSome && c.inSlots f i && (s.mem f i).present then some (s.mem f i) else none

/-- The tables of other address spaces. -/
def foreign (s : PagingState) : List PageTableMetadata :=
  s.tables.filter (fun md => !(md.owner == c.owner && md.rootPhys == c.root))

variable {c} {s s' : PagingState} {f g i j k : Nat} {d : Descriptor}

theorem inSlots_lt (h : c.inSlots f i) : i < TABLE_ENTRIES := by
  unfold inSlots at h
  split at h
  · simp only [Bool.and_eq_true, decide_eq_true_eq] at h
    exact Nat.lt_of_lt_of_le h.2 c.hi_le
  · simpa using h

theorem inSlots_root : c.inSlots c.root i ↔ c.lo ≤ i ∧ i < c.hi := by
  unfold inSlots
  rw [if_pos rfl, Bool.and_eq_true, decide_eq_true_eq, decide_eq_true_eq]

theorem inSlots_of_ne (hf : f ≠ c.root) (hi : i < TABLE_ENTRIES) : c.inSlots f i := by
  unfold inSlots
  rw [if_neg hf]
  exact decide_eq_true hi

theorem height_root : c.height s c.root = some 3 := by
  unfold height
  rw [if_pos rfl]

/-- A table below the root is registered. -/
theorem findTable_of_height (hg : c.height s g = some k) (hroot : g ≠ c.root) :
    ∃ md, s.findTable g = some md ∧ c.Owns md ∧ md.level.height = k := by
  unfold height at hg
  rw [if_neg hroot] at hg
  obtain ⟨md, hfind, hmd⟩ := Option.bind_eq_some_iff.mp hg
  by_cases howns : c.Owns md
  · rw [if_pos howns] at hmd
    exact ⟨md, hfind, howns, Option.some.inj hmd⟩
  · rw [if_neg howns] at hmd
    cases hmd

theorem row_def (s : PagingState) (f i : Nat) : (c.forest s).row f i =
    if (c.height s f).isSome && c.inSlots f i && (s.mem f i).present then some (s.mem f i)
    else none := rfl

theorem row_eq_some (hf : (c.height s f).isSome) : (c.forest s).row f i = some d ↔
      c.inSlots f i ∧ (s.mem f i).present ∧ s.mem f i = d := by
  rw [row_def, hf, Bool.true_and]
  by_cases hc : (c.inSlots f i && (s.mem f i).present)
  · rw [if_pos hc]
    rw [Bool.and_eq_true] at hc
    simp [hc]
  rw [if_neg hc]
  rw [Bool.and_eq_true] at hc
  constructor
  · intro h
    cases h
  · intro h
    exact absurd ⟨h.1, h.2.1⟩ hc

theorem row_eq_none (hf : (c.height s f).isSome) (hi : c.inSlots f i) :
    (c.forest s).row f i = none ↔ (s.mem f i).present = false := by
  rw [row_def, hf, hi]
  cases (s.mem f i).present <;> simp

theorem row_isSome (hf : (c.height s f).isSome) :
    ((c.forest s).row f i).isSome = (c.inSlots f i && (s.mem f i).present) := by
  rw [row_def, hf, Bool.true_and]
  cases c.inSlots f i && (s.mem f i).present <;> rfl

theorem row_of_height_none (hf : c.height s f = none) : (c.forest s).row f i = none := by
  rw [row_def, hf]
  rfl

/-- The height only depends on whose table it is and on which level. -/
theorem height_congr (h : (s'.findTable g).map PageTableMetadata.kind =
      (s.findTable g).map PageTableMetadata.kind) : c.height s' g = c.height s g := by
  unfold height
  split
  · rfl
  cases hs : s.findTable g with
  | none =>
    rw [hs] at h
    simp only [Option.map_none, Option.map_eq_none_iff] at h
    rw [h]
  | some =>
    rw [hs] at h
    obtain ⟨md', hmd', heq⟩ := Option.map_eq_some_iff.mp h
    rw [hmd']
    simp only [PageTableMetadata.kind, PageTableMetadata.mk.injEq] at heq
    simp [Owns, heq]

theorem forest_ext (hh : ∀ g, c.height s' g = c.height s g)
    (hm : ∀ g j, (c.height s g).isSome → s'.mem g j = s.mem g j) : c.forest s' = c.forest s := by
  apply Forest.ext
  · exact funext hh
  · funext g j
    cases hg : c.height s g with
    | none => rw [row_of_height_none hg, row_of_height_none (by rw [hh, hg])]
    | some =>
      rw [row_def, row_def, hh, hm g j (by rw [hg]; rfl)]

end Space

/-! ## §2. The invariant. -/

/-- The tables of an address space form a tree with exact counts. -/
structure Tree (m : Machine) (c : Space) (s : PagingState) : Prop where
  wf : WellFormed addr c.root 3 (c.forest s)
  nodup : s.frames.Nodup
  /-- A registered table is a frame of its own. -/
  inUse : ∀ g, g ∈ s.frames → g ∈ s.inUse
  rootInUse : c.root ∈ s.inUse
  rootSlot : (s.findTable c.root).map PageTableMetadata.kind =
    if c.registered then some ⟨c.owner, .pml4, c.root, c.root, 0⟩ else none
  /-- A slot that names the address space is one of its tables. -/
  node : ∀ g md, s.findTable g = some md → md.owner = c.owner → md.rootPhys = c.root →
    (c.height s g).isSome
  direct : ∀ g k, c.height s g = some k → k < 3 → m.directMapped g
  /-- No large page is mapped above the page tables. -/
  small : ∀ f k i d, c.height s f = some (k + 1) → (c.forest s).row f i = some d →
    d.attr.large = false
  count : ∀ f k md, c.height s f = some k → s.findTable f = some md →
    md.presentEntries = occupied TABLE_ENTRIES (fun i => ((c.forest s).row f i).isSome)

/-- The descriptor of the page a path of four indices leads to. -/
def Space.leaf (c : Space) (s : PagingState) (q : List Nat) : Option Descriptor :=
  (c.forest s).find addr q c.root

namespace Tree

variable {m : Machine} {c : Space} {s s' : PagingState} {f g i j k n : Nat} {d : Descriptor}
  {md : PageTableMetadata}

theorem height_inUse (h : Tree m c s) (hg : c.height s g = some k) : g ∈ s.inUse := by
  by_cases hroot : g = c.root
  · rw [hroot]
    exact h.rootInUse
  · obtain ⟨md, hfind, _⟩ := Space.findTable_of_height hg hroot
    obtain ⟨hmem, hframe⟩ := findTable_some hfind
    exact h.inUse g (hframe ▸ mem_map_of_mem hmem)

theorem height_fresh (h : Tree m c s) (hg : g ∉ s.inUse) : c.height s g = none := by
  cases hh : c.height s g with
  | none => rfl
  | some => exact absurd (h.height_inUse hh) hg

theorem findTable_fresh (h : Tree m c s) (hg : g ∉ s.inUse) : s.findTable g = none :=
  findTable_eq_none.mpr (fun hmem => hg (h.inUse g hmem))

section

variable (h : Tree m c s) (hf : c.height s f = some k)

include h hf

theorem presentEntries_eq (hfind : s.findTable f ≠ none) :
    s.presentEntries f = occupied TABLE_ENTRIES (fun i => ((c.forest s).row f i).isSome) := by
  unfold presentEntries
  cases hmd : s.findTable f with
  | none => exact absurd hmd hfind
  | some md => exact h.count f k md hf hmd

/-- A table with a free entry has not reached the limit of its count. -/
theorem count_lt (hi : i < TABLE_ENTRIES) (hrow : (c.forest s).row f i = none) :
    s.presentEntries f < TABLE_ENTRIES := by
  by_cases hfind : s.findTable f = none
  · unfold presentEntries
    rw [hfind]
    show 0 < 512
    omega
  · rw [h.presentEntries_eq hf hfind]
    have hle := occupied_le TABLE_ENTRIES (fun i => ((c.forest s).row f i).isSome)
    have hne : occupied TABLE_ENTRIES (fun i => ((c.forest s).row f i).isSome) ≠ TABLE_ENTRIES := by
      intro hfull
      have hall := occupied_eq_full.mp hfull i hi
      rw [hrow] at hall
      cases hall
    omega

/-- A table with a present entry has a count to take one from. -/
theorem count_pos (hi : i < TABLE_ENTRIES) (hrow : (c.forest s).row f i = some d) :
    s.findTable f = none ∨ 0 < s.presentEntries f := by
  by_cases hfind : s.findTable f = none
  · exact .inl hfind
  · right
    rw [h.presentEntries_eq hf hfind]
    exact occupied_pos hi (by rw [hrow]; rfl)

/-- A table counted empty has no present entry. -/
theorem row_of_tableEmpty (hempty : s.tableEmpty f) (j : Nat) : (c.forest s).row f j = none := by
  obtain ⟨md, hfind, hzero⟩ := tableEmpty_iff.mp hempty
  have hcount := h.count f k md hf hfind
  rw [hzero] at hcount
  by_cases hj : j < TABLE_ENTRIES
  · have hnone := occupied_eq_zero.mp hcount.symm j hj
    simpa using hnone
  cases hrow : (c.forest s).row f j with
  | none => rfl
  | some =>
    rw [Space.row_eq_some (by rw [hf]; rfl)] at hrow
    exact absurd (Space.inSlots_lt hrow.1) hj

/-- A registered table of the address space with no present entry is counted empty. -/
theorem tableEmpty_of_row (hfind : s.findTable f = some md)
    (hrow : ∀ j, (c.forest s).row f j = none) : s.tableEmpty f := by
  rw [tableEmpty_iff]
  refine ⟨md, hfind, ?_⟩
  rw [h.count f k md hf hfind, occupied_eq_zero]
  intro j _
  rw [hrow j]
  rfl

end

theorem rootOwn (h : Tree m c s) (hmd : s.findTable c.root = some md) :
    md.owner = c.owner ∧ md.rootPhys = c.root := by
  have hslot := h.rootSlot
  rw [hmd] at hslot
  cases hreg : c.registered with
  | false =>
    rw [hreg] at hslot
    cases hslot
  | true =>
    rw [hreg] at hslot
    have hkind : md.kind = ⟨c.owner, .pml4, c.root, c.root, 0⟩ := Option.some.inj hslot
    exact ⟨congrArg PageTableMetadata.owner hkind, congrArg PageTableMetadata.rootPhys hkind⟩

/-- The slot of a table of the address space names the address space. -/
theorem own (h : Tree m c s) (hf : c.height s f = some k) (hfind : s.findTable f = some md) :
    md.owner = c.owner ∧ md.rootPhys = c.root := by
  by_cases hroot : f = c.root
  · exact h.rootOwn (hroot ▸ hfind)
  · obtain ⟨_, hmd, howns, _⟩ := Space.findTable_of_height hf hroot
    cases hfind.symm.trans hmd
    exact ⟨howns.1, howns.2.1⟩

end Tree

/-! ## §3. The tables of other address spaces. -/

section Foreign

variable {c : Space} {s : PagingState} {f n x : Nat}

section

variable (hown : ∀ md, s.findTable f = some md → md.owner = c.owner ∧ md.rootPhys = c.root)
  (hs : s.frames.Nodup)

include hown hs

theorem Space.foreign_unregisterTable : c.foreign (s.unregisterTable f) = c.foreign s := by
  show (s.tables.eraseP _).filter _ = s.tables.filter _
  by_cases hex : ∃ md ∈ s.tables, md.framePhys = f
  · obtain ⟨md, hmem, hframe⟩ := hex
    obtain ⟨a, l1, l2, _, ha, hsplit, herase⟩ :=
      exists_of_eraseP (p := fun m : PageTableMetadata => m.framePhys == f) hmem
        (by simpa using hframe)
    have haf : a.framePhys = f := by simpa using ha
    have hamem : a ∈ s.tables := by
      rw [hsplit]
      simp
    have haown := hown a (haf ▸ findTable_of_mem hs hamem)
    rw [herase, hsplit, filter_append, filter_append, filter_cons_of_neg]
    simp [haown]
  · rw [eraseP_of_forall_not]
    intro md hmem
    simpa using fun heq : md.framePhys = f => hex ⟨md, hmem, heq⟩

theorem Space.foreign_setPresentEntries : c.foreign (s.setPresentEntries f n) = c.foreign s := by
  show (s.tables.map _).filter _ = s.tables.filter _
  rw [filter_map]
  have hpred : (fun md : PageTableMetadata => !(md.owner == c.owner && md.rootPhys == c.root)) ∘
      (fun md : PageTableMetadata =>
        if md.framePhys = f then { md with presentEntries := n } else md) =
      fun md => !(md.owner == c.owner && md.rootPhys == c.root) := by
    funext md
    show (!((if md.framePhys = f then { md with presentEntries := n } else md).owner == c.owner &&
      (if md.framePhys = f then { md with presentEntries := n } else md).rootPhys == c.root)) = _
    split <;> rfl
  rw [hpred]
  conv_rhs => rw [← map_id (s.tables.filter _)]
  apply map_congr_left
  intro md hmd
  obtain ⟨hmem, hforeign⟩ := mem_filter.mp hmd
  have hne : md.framePhys ≠ f := by
    intro heq
    have := hown md (heq ▸ findTable_of_mem hs hmem)
    simp [this] at hforeign
  rw [if_neg hne]
  rfl

end

/-- A count that changes leaves the kind of a table. -/
theorem kind_recounted (g : PageTableMetadata → Nat) :
    (if x = f then (s.findTable f).map (fun md => { md with presentEntries := g md })
      else s.findTable x).map PageTableMetadata.kind =
        (s.findTable x).map PageTableMetadata.kind := by
  by_cases hx : x = f
  · rw [if_pos hx, hx, Option.map_map]
    rfl
  · rw [if_neg hx]

end Foreign

/-! ## §4. Hanging a new table. -/

/-- The frame `g` is taken, cleared, registered and published in entry `i` of `f`. -/
def PagingState.published (s : PagingState) (c : Space) (f i g : Nat) (level : PageTableLevel)
    (attr : PageAttr) : PagingState :=
  (((s.withFrame g).clearTable g).addSlot ⟨c.owner, level, c.root, g, 0⟩).write f i ⟨g, attr⟩

/-- The state after `ensure_owned_descriptor` has created a table. -/
def PagingState.attached (s : PagingState) (c : Space) (f i g : Nat) (level : PageTableLevel)
    (attr : PageAttr) : PagingState :=
  let s := s.published c f i g level attr
  s.setPresentEntries f (s.presentEntries f + 1)

section Attach

variable {m : Machine} {c : Space} {s : PagingState} {f g i k : Nat} (level : PageTableLevel)
  (attr : PageAttr)

theorem PagingState.mem_attached (h j : Nat) : (s.attached c f i g level attr).mem h j =
    if h = f ∧ j = i then ⟨g, attr⟩ else if h = g then zero else s.mem h j := by
  unfold attached published
  rw [mem_setPresentEntries, mem_write]
  congr 1
  exact mem_clearTable _ g h j

theorem PagingState.findTable_published (hg : s.findTable g = none) (h : Nat) :
    (s.published c f i g level attr).findTable h =
      if h = g then some ⟨c.owner, level, c.root, g, 0⟩ else s.findTable h :=
  findTable_addSlot (s := s) ⟨c.owner, level, c.root, g, 0⟩ hg

theorem PagingState.findTable_attached (hg : s.findTable g = none) (hne : f ≠ g) (h : Nat) :
    (s.attached c f i g level attr).findTable h =
      if h = f then (s.findTable f).map
        (fun md => { md with presentEntries := md.presentEntries + 1 })
      else if h = g then some ⟨c.owner, level, c.root, g, 0⟩ else s.findTable h := by
  have hf : (s.published c f i g level attr).findTable f = s.findTable f := by
    rw [findTable_published level attr hg, if_neg hne]
  unfold attached
  rw [findTable_setPresentEntries, findTable_published level attr hg h, hf]
  congr 1
  unfold presentEntries
  rw [hf]
  cases s.findTable f <;> rfl

theorem PagingState.frames_attached (h : Tree m c s) (hg : g ∉ s.inUse) :
    (s.attached c f i g level attr).frames.Nodup ∧
      ∀ h, h ∈ (s.attached c f i g level attr).frames ↔ h ∈ s.frames ∨ h = g := by
  unfold attached published
  rw [frames_setPresentEntries]
  constructor
  · exact frames_addSlot (s := s) ⟨c.owner, level, c.root, g, 0⟩ h.nodup (h.findTable_fresh hg)
  · intro x
    show x ∈ (s.tables ++ [_]).map _ ↔ x ∈ s.tables.map _ ∨ x = g
    simp

theorem Space.foreign_attached (h : Tree m c s) (hf : c.height s f = some k) (hg : g ∉ s.inUse) :
    c.foreign (s.attached c f i g level attr) = c.foreign s := by
  have hne : f ≠ g := fun heq => hg (heq ▸ h.height_inUse hf)
  have hfind : (s.published c f i g level attr).findTable f = s.findTable f := by
    rw [findTable_published level attr (h.findTable_fresh hg), if_neg hne]
  unfold attached
  rw [Space.foreign_setPresentEntries]
  · show (s.tables ++ [_]).filter _ = s.tables.filter _
    simp
  · intro md hmd
    rw [hfind] at hmd
    exact h.own hf hmd
  · exact frames_addSlot (s := s) ⟨c.owner, level, c.root, g, 0⟩ h.nodup (h.findTable_fresh hg)

theorem Space.height_attached (h : Tree m c s) (hf : c.height s f = some (k + 1))
    (hg : g ∉ s.inUse) (hl : level ≠ .pml4) (x : Nat) : c.height (s.attached c f i g level attr) x =
      if x = g then some level.height else c.height s x := by
  have hne : f ≠ g := fun heq => hg (heq ▸ h.height_inUse hf)
  have hfind := findTable_attached (c := c) (i := i) level attr (h.findTable_fresh hg) hne
  by_cases hx : x = g
  · have hroot : g ≠ c.root := fun heq => hg (heq ▸ h.rootInUse)
    rw [if_pos hx, hx]
    unfold Space.height
    rw [if_neg hroot, hfind, if_neg hne.symm, if_pos rfl]
    simp [Space.Owns, hl]
  · rw [if_neg hx]
    apply Space.height_congr
    rw [hfind, if_neg hx]
    exact kind_recounted _

theorem Space.forest_attached (h : Tree m c s) (hf : c.height s f = some (k + 1))
    (hi : c.inSlots f i) (hg : g ∉ s.inUse) (hp : attr.present)
    (hk : level.height = k) (hl : level ≠ .pml4) : c.forest (s.attached c f i g level attr) =
      (c.forest s).attach addr f i ⟨g, attr⟩ k := by
  have hne : g ≠ f := fun heq => hg (heq ▸ h.height_inUse hf)
  have hheight := Space.height_attached (i := i) level attr h hf hg hl
  apply Forest.ext
  · funext x
    show c.height _ x = Function.update (c.height s) g (some k) x
    rw [hheight, hk, Function.update_apply]
  · funext x j
    by_cases hx : x = g
    · subst hx
      have hnew : (s.attached c f i x level attr).mem x j = zero := by
        rw [mem_attached, if_neg fun hself => hne hself.1, if_pos rfl]
      rw [row_attach_new hne, Space.row_def, hnew, Bool.and_comm]
      rfl
    · have hsame := (hheight x).trans (if_neg hx)
      by_cases hself : x = f ∧ j = i
      · obtain ⟨rfl, rfl⟩ := hself
        rw [row_attach_self, Space.row_eq_some (by rw [hsame, hf]; rfl), mem_attached,
          if_pos ⟨rfl, rfl⟩]
        exact ⟨hi, hp, rfl⟩
      · rw [row_attach_of_ne hx hself, Space.row_def, Space.row_def, hsame, mem_attached,
          if_neg hself, if_neg hx]

theorem Space.occupied_cleared {d : Descriptor} (hi : c.inSlots f i)
    (hrow : (c.forest s).row f i = some d) :
    occupied TABLE_ENTRIES (fun j => (((c.forest s).write f i none).row f j).isSome) + 1 =
      occupied TABLE_ENTRIES (fun j => ((c.forest s).row f j).isSome) := by
  apply occupied_vacate (Space.inSlots_lt hi) (by rw [hrow]; rfl)
  · rw [row_write_self]
    rfl
  · intro j _ hj
    rw [row_write_of_ne (fun hself => hj hself.2)]

theorem Space.occupied_elsewhere {v : Option Descriptor} (hx : x ≠ f) :
    occupied TABLE_ENTRIES (fun j => (((c.forest s).write f i v).row x j).isSome) =
      occupied TABLE_ENTRIES (fun j => ((c.forest s).row x j).isSome) := by
  apply occupied_congr
  intro j _
  rw [row_write_of_ne (fun hself => hx hself.1)]

/-- Creating a table keeps the tree and its counts. -/
theorem Tree.attach (h : Tree m c s) (hf : c.height s f = some (k + 1))
    (hi : c.inSlots f i) (hrow : (c.forest s).row f i = none) (hg : g ∉ s.inUse)
    (hdirect : m.directMapped g) (hp : attr.present) (hsmall : attr.large = false)
    (hk : level.height = k) (hl : level ≠ .pml4) : Tree m c (s.attached c f i g level attr) := by
  have hne : f ≠ g := fun heq => hg (heq ▸ h.height_inUse hf)
  have hforest := Space.forest_attached level attr h hf hi hg hp hk hl
  have hheight := Space.height_attached (i := i) level attr h hf hg hl
  have hfind := findTable_attached (c := c) (i := i) level attr (h.findTable_fresh hg) hne
  obtain ⟨hnodup, hframes⟩ := frames_attached (f := f) (i := i) level attr h hg
  have hroot : c.root ≠ g := fun heq => hg (heq ▸ h.rootInUse)
  have hnew : addr ⟨g, attr⟩ ≠ f := hne.symm
  refine ⟨?wf, hnodup, ?inUse, ?rootInUse, ?rootSlot, ?node, ?direct, ?small, ?count⟩
  case wf =>
    rw [hforest]
    exact h.wf.attach hf hrow (h.height_fresh hg)
  case inUse =>
    intro x hx
    show x ∈ g :: s.inUse
    rcases (hframes x).mp hx with hx | rfl
    · exact mem_cons_of_mem _ (h.inUse x hx)
    · exact mem_cons_self
  case rootInUse => exact mem_cons_of_mem _ h.rootInUse
  case rootSlot =>
    rw [hfind, if_neg hroot, ← h.rootSlot]
    exact kind_recounted _
  case node =>
    intro x md hmd howner hroot'
    rw [hheight]
    by_cases hxg : x = g
    · rw [if_pos hxg]
      rfl
    rw [if_neg hxg]
    rw [hfind, if_neg hxg] at hmd
    by_cases hxf : x = f
    · rw [hxf, hf]
      rfl
    · rw [if_neg hxf] at hmd
      exact h.node x md hmd howner hroot'
  case direct =>
    intro x j hx hj
    rw [hheight] at hx
    by_cases hxg : x = g
    · rw [hxg]
      exact hdirect
    · rw [if_neg hxg] at hx
      exact h.direct x j hx hj
  case small =>
    intro x j i' d hx hr
    rw [hforest] at hr
    rcases row_attach_cases hnew hr with ⟨_, _, rfl⟩ | ⟨hxg, _, hr⟩
    · exact hsmall
    · rw [hheight, if_neg hxg] at hx
      exact h.small x j i' d hx hr
  case count =>
    intro x j md hx hmd
    rw [hforest]
    rw [hfind] at hmd
    by_cases hxf : x = f
    · -- The parent has one more present entry and one more counted.
      subst hxf
      rw [if_pos rfl] at hmd
      obtain ⟨md', hmd', rfl⟩ := Option.map_eq_some_iff.mp hmd
      show md'.presentEntries + 1 = _
      rw [h.count x (k + 1) md' hf hmd']
      symm
      apply occupied_fill (Space.inSlots_lt hi) (by rw [hrow]; rfl)
      · rw [row_attach_self]
        rfl
      · intro j' _ hj'
        rw [row_attach_of_ne hne (fun hself => hj' hself.2)]
    · rw [if_neg hxf] at hmd
      by_cases hxg : x = g
      · -- The new table is empty and counted empty.
        subst hxg
        rw [if_pos rfl] at hmd
        cases hmd
        symm
        apply occupied_eq_zero.mpr
        intro j' _
        exact congrArg Option.isSome (row_attach_new (F := c.forest s) (i := i) (k := k) hnew j')
      · rw [if_neg hxg] at hmd
        rw [hheight, if_neg hxg] at hx
        rw [h.count x j md hx hmd]
        apply occupied_congr
        intro j' _
        rw [row_attach_of_ne hxg (fun hself => hxf hself.1)]

end Attach

/-! ## §5. Cutting an empty table off. -/

/-- The state after the empty table `g` has been cut off entry `i` of `f`: the
entry is cleared and counted out, the table unregistered and freed. -/
def PagingState.detached (s : PagingState) (f i g : Nat) : PagingState :=
  let s := s.write f i zero
  let s := s.setPresentEntries f (s.presentEntries f - 1)
  (s.unregisterTable g).freeFrame g

section Detach

variable {m : Machine} {c : Space} {s : PagingState} {f g i k : Nat} {d : Descriptor}

theorem PagingState.mem_detached (h j : Nat) : (s.detached f i g).mem h j =
    if h = f ∧ j = i then zero else s.mem h j :=
  mem_write s f i zero h j

theorem PagingState.findTable_detached (hs : s.frames.Nodup) (h : Nat) :
    (s.detached f i g).findTable h =
      if h = g then none
      else if h = f then (s.findTable f).map
        (fun md => { md with presentEntries := md.presentEntries - 1 })
      else s.findTable h := by
  unfold detached
  rw [findTable_freeFrame, findTable_unregisterTable (by rw [frames_setPresentEntries]; exact hs),
    findTable_setPresentEntries]
  congr 2
  show Option.map _ (s.findTable f) = Option.map _ (s.findTable f)
  have hcount : (s.write f i zero).presentEntries f = s.presentEntries f := rfl
  rw [hcount]
  unfold presentEntries
  cases s.findTable f <;> rfl

theorem PagingState.frames_detached {md : PageTableMetadata} (hg : s.findTable g = some md) :
    s.frames.Perm (g :: (s.detached f i g).frames) := by
  have hfind : ((s.write f i zero).setPresentEntries f
      (s.presentEntries f - 1)).findTable g ≠ none := by
    rw [Ne, findTable_eq_none, frames_setPresentEntries]
    show ¬ g ∉ s.frames
    rw [← findTable_eq_none, hg]
    simp
  obtain ⟨md', hmd'⟩ := Option.ne_none_iff_exists'.mp hfind
  have hperm := frames_unregisterTable hmd'
  rw [frames_setPresentEntries] at hperm
  exact hperm

section

variable (h : Tree m c s) (hf : c.height s f = some (k + 1)) (hd : (c.forest s).row f i = some d)

include h hf hd

/-- The facts about a cut that all its consequences start from. -/
theorem Tree.child_facts :
    c.height s d.addr = some k ∧ f ≠ d.addr ∧ d.addr ≠ c.root ∧ c.inSlots f i ∧ s.mem f i = d := by
  have hchild : c.height s d.addr = some k := h.wf.child f k i d hf hd
  have hk : k + 1 ≤ 3 := h.wf.le f (k + 1) hf
  refine ⟨hchild, WellFormed.ne_of_height (F := c.forest s) hf hchild (by omega), ?_, ?_⟩
  · exact WellFormed.ne_of_height (F := c.forest s) hchild h.wf.atRoot (by omega)
  · rw [Space.row_eq_some (by rw [hf]; rfl)] at hd
    exact ⟨hd.1, hd.2.2⟩

theorem Space.foreign_detached : c.foreign (s.detached f i d.addr) = c.foreign s := by
  obtain ⟨hchild, hne, _, _⟩ := h.child_facts hf hd
  unfold detached
  show c.foreign (unregisterTable _ d.addr) = _
  rw [Space.foreign_unregisterTable, Space.foreign_setPresentEntries]
  · rfl
  · exact fun md hmd => h.own hf hmd
  · exact h.nodup
  · intro md hmd
    rw [findTable_setPresentEntries, if_neg hne.symm] at hmd
    exact h.own hchild hmd
  · rw [frames_setPresentEntries]
    exact h.nodup

theorem Space.height_detached (x : Nat) :
    c.height (s.detached f i d.addr) x = if x = d.addr then none else c.height s x := by
  obtain ⟨_, _, hroot, _⟩ := h.child_facts hf hd
  have hfind := findTable_detached (f := f) (i := i) (g := d.addr) h.nodup
  by_cases hx : x = d.addr
  · rw [if_pos hx, hx]
    unfold Space.height
    rw [if_neg hroot, hfind, if_pos rfl]
    rfl
  · rw [if_neg hx]
    apply Space.height_congr
    rw [hfind, if_neg hx]
    exact kind_recounted _

theorem Space.forest_detached (hempty : ∀ j, (c.forest s).row d.addr j = none) :
    c.forest (s.detached f i d.addr) = (c.forest s).detach f i d.addr := by
  have hheight := Space.height_detached h hf hd
  apply Forest.ext
  · funext x
    show c.height _ x = Function.update (c.height s) d.addr none x
    rw [hheight, Function.update_apply]
  · funext x j
    rw [row_detach]
    by_cases hself : x = f ∧ j = i
    · obtain ⟨rfl, rfl⟩ := hself
      have hcut : (s.detached x j d.addr).mem x j = zero :=
        (mem_detached x j).trans (if_pos ⟨rfl, rfl⟩)
      rw [row_write_self, Space.row_def, hcut, Bool.and_comm]
      rfl
    · rw [row_write_of_ne hself]
      by_cases hx : x = d.addr
      · rw [hx, Space.row_of_height_none ((hheight _).trans (if_pos rfl)), hempty]
      · rw [Space.row_def, Space.row_def, hheight, if_neg hx, mem_detached, if_neg hself]

/-- Cutting an empty table off keeps the tree and its counts. -/
theorem Tree.detach (hempty : ∀ j, (c.forest s).row d.addr j = none) :
    Tree m c (s.detached f i d.addr) := by
  obtain ⟨hchild, hne, hroot, hi, _⟩ := h.child_facts hf hd
  have hforest := Space.forest_detached h hf hd hempty
  have hheight := Space.height_detached h hf hd
  have hfind := findTable_detached (f := f) (i := i) (g := d.addr) h.nodup
  obtain ⟨mdg, hmdg, _, _⟩ := Space.findTable_of_height hchild hroot
  have hframes := frames_detached (f := f) (i := i) hmdg
  have hnodup := hframes.nodup_iff.mp h.nodup
  -- A table that is left was there before, and is not the one cut off.
  have hleft : ∀ x j, c.height (s.detached f i d.addr) x = some j →
      x ≠ d.addr ∧ c.height s x = some j := by
    intro x j hx
    rw [hheight] at hx
    by_cases hxg : x = d.addr
    · rw [if_pos hxg] at hx
      cases hx
    · rw [if_neg hxg] at hx
      exact ⟨hxg, hx⟩
  refine ⟨?wf, (nodup_cons.mp hnodup).2, ?inUse, ?rootInUse, ?rootSlot, ?node, ?direct,
    ?small, ?count⟩
  case wf =>
    rw [hforest]
    exact h.wf.detach hf hd hempty
  case inUse =>
    intro x hx
    have hxg : x ≠ d.addr := fun heq => (nodup_cons.mp hnodup).1 (heq ▸ hx)
    apply mem_inUse_freeFrame.mpr
    exact ⟨h.inUse x (hframes.mem_iff.mpr (mem_cons_of_mem _ hx)), hxg⟩
  case rootInUse => exact mem_inUse_freeFrame.mpr ⟨h.rootInUse, hroot.symm⟩
  case rootSlot =>
    rw [hfind, if_neg hroot.symm, ← h.rootSlot]
    exact kind_recounted _
  case node =>
    intro x md hmd howner hroot'
    rw [hfind] at hmd
    by_cases hxg : x = d.addr
    · rw [if_pos hxg] at hmd
      cases hmd
    rw [hheight, if_neg hxg]
    rw [if_neg hxg] at hmd
    by_cases hxf : x = f
    · rw [hxf, hf]
      rfl
    · rw [if_neg hxf] at hmd
      exact h.node x md hmd howner hroot'
  case direct => exact fun x j hx hj => h.direct x j (hleft x j hx).2 hj
  case small =>
    intro x j i' e hx hr
    rw [hforest, row_detach] at hr
    by_cases hself : x = f ∧ i' = i
    · obtain ⟨rfl, rfl⟩ := hself
      rw [row_write_self] at hr
      cases hr
    · rw [row_write_of_ne hself] at hr
      exact h.small x j i' e (hleft x _ hx).2 hr
  case count =>
    intro x j md hx hmd
    obtain ⟨hxg, hx⟩ := hleft x j hx
    rw [hfind, if_neg hxg] at hmd
    rw [hforest, row_detach]
    by_cases hxf : x = f
    · -- The parent has one present entry less and one less counted.
      subst hxf
      rw [if_pos rfl] at hmd
      obtain ⟨md', hmd', rfl⟩ := Option.map_eq_some_iff.mp hmd
      show md'.presentEntries - 1 = _
      rw [h.count x (k + 1) md' hf hmd']
      have hvacate := Space.occupied_cleared hi hd
      omega
    · rw [if_neg hxf] at hmd
      rw [h.count x j md hx hmd]
      exact (Space.occupied_elsewhere hxf).symm

end

end Detach

/-! ## §6. Writing a descriptor. -/

section Write

variable {m : Machine} {c : Space} {s : PagingState} {f i k n : Nat} {d : Descriptor}

/-- What the address space sees of a descriptor. -/
def Descriptor.seen (d : Descriptor) : Option Descriptor := if d.present then some d else none

theorem Space.height_rewrite (x : Nat) :
    c.height ((s.write f i d).setPresentEntries f n) x = c.height s x := by
  apply Space.height_congr
  rw [findTable_setPresentEntries]
  exact kind_recounted (s := s) fun _ => n

theorem Space.forest_rewrite (hf : c.height s f = some k) (hi : c.inSlots f i) :
    c.forest ((s.write f i d).setPresentEntries f n) = (c.forest s).write f i d.seen := by
  apply Forest.ext
  · exact funext Space.height_rewrite
  · funext x j
    have hmem : ((s.write f i d).setPresentEntries f n).mem x j =
      if x = f ∧ j = i then d else s.mem x j := mem_write s f i d x j
    rw [Space.row_def, Space.height_rewrite, hmem]
    by_cases hself : x = f ∧ j = i
    · rw [if_pos hself, hself.1, hself.2, row_write_self, hf, hi]
      rfl
    · rw [row_write_of_ne hself, if_neg hself, Space.row_def]

section

variable (h : Tree m c s)

include h

theorem Space.foreign_rewrite (hf : c.height s f = some k) :
    c.foreign ((s.write f i d).setPresentEntries f n) = c.foreign s := by
  rw [Space.foreign_setPresentEntries]
  · rfl
  · exact fun md hmd => h.own hf hmd
  · exact h.nodup

/-- Writing a descriptor together with the right count keeps the tree, if the
tree shape survives. -/
theorem Tree.rewrite (hf : c.height s f = some k) (hi : c.inSlots f i)
    (hwf : WellFormed addr c.root 3 ((c.forest s).write f i d.seen))
    (hsmall : k ≠ 0 → d.attr.large = false) (hn : s.findTable f ≠ none → n = occupied TABLE_ENTRIES
      (fun j => (((c.forest s).write f i d.seen).row f j).isSome)) :
    Tree m c ((s.write f i d).setPresentEntries f n) := by
  have hforest := Space.forest_rewrite (n := n) (d := d) hf hi
  have hheight := Space.height_rewrite (c := c) (s := s) (f := f) (i := i) (d := d) (n := n)
  have hfind : ∀ x, ((s.write f i d).setPresentEntries f n).findTable x =
      if x = f then (s.findTable f).map (fun md => { md with presentEntries := n })
      else s.findTable x :=
    fun x => findTable_setPresentEntries
  have hframes : ((s.write f i d).setPresentEntries f n).frames = s.frames :=
    frames_setPresentEntries
  refine ⟨?wf, ?nodup, ?inUse, h.rootInUse, ?rootSlot, ?node, ?direct, ?small, ?count⟩
  case wf =>
    rw [hforest]
    exact hwf
  case nodup =>
    rw [hframes]
    exact h.nodup
  case inUse =>
    intro x hx
    rw [hframes] at hx
    exact h.inUse x hx
  case rootSlot =>
    rw [hfind, ← h.rootSlot]
    exact kind_recounted _
  case node =>
    intro x md hmd howner hroot'
    rw [hheight]
    rw [hfind] at hmd
    by_cases hxf : x = f
    · rw [hxf, hf]
      rfl
    · rw [if_neg hxf] at hmd
      exact h.node x md hmd howner hroot'
  case direct =>
    intro x j hx hj
    rw [hheight] at hx
    exact h.direct x j hx hj
  case small =>
    intro x j i' e hx hr
    rw [hheight] at hx
    rw [hforest] at hr
    by_cases hself : x = f ∧ i' = i
    · obtain ⟨rfl, rfl⟩ := hself
      rw [row_write_self] at hr
      have hed : e = d := by
        unfold seen at hr
        split at hr
        · exact (Option.some.inj hr).symm
        · cases hr
      rw [hed]
      rw [hf] at hx
      exact hsmall (by rw [Option.some.inj hx]; omega)
    · rw [row_write_of_ne hself] at hr
      exact h.small x j i' e hx hr
  case count =>
    intro x j md hx hmd
    rw [hheight] at hx
    rw [hforest]
    rw [hfind] at hmd
    by_cases hxf : x = f
    · subst hxf
      rw [if_pos rfl] at hmd
      obtain ⟨md', hmd', rfl⟩ := Option.map_eq_some_iff.mp hmd
      exact hn (by rw [hmd']; simp)
    · rw [if_neg hxf] at hmd
      rw [h.count x j md hx hmd]
      exact (Space.occupied_elsewhere hxf).symm

/-- Mapping a page: an absent entry of a page table becomes present. -/
theorem Tree.fillLeaf (hf : c.height s f = some 0) (hi : c.inSlots f i)
    (hrow : (c.forest s).row f i = none) (hd : d.present) :
    Tree m c ((s.write f i d).setPresentEntries f (s.presentEntries f + 1)) := by
  have hseen : d.seen = some d := if_pos hd
  apply h.rewrite hf hi (h.wf.setLeaf hf _) (fun h0 => absurd rfl h0)
  intro hreg
  rw [h.presentEntries_eq hf hreg, hseen]
  symm
  apply occupied_fill (Space.inSlots_lt hi) (by rw [hrow]; rfl)
  · rw [row_write_self]
    rfl
  · intro j _ hj
    rw [row_write_of_ne (fun hself => hj hself.2)]

/-- Unmapping a page: a present entry of a page table is cleared. -/
theorem Tree.clearLeaf (hf : c.height s f = some 0) (hrow : (c.forest s).row f i = some d) :
    Tree m c ((s.write f i zero).setPresentEntries f (s.presentEntries f - 1)) := by
  have hi : c.inSlots f i := ((Space.row_eq_some (by rw [hf]; rfl)).mp hrow).1
  apply h.rewrite hf hi (h.wf.setLeaf hf _) (fun h0 => absurd rfl h0)
  intro hreg
  rw [h.presentEntries_eq hf hreg]
  have hvacate := Space.occupied_cleared hi hrow
  show _ = occupied TABLE_ENTRIES (fun j => (((c.forest s).write f i none).row f j).isSome)
  omega

/-- A present descriptor replaced by a present one: the counts stay right. -/
theorem Tree.replace (hf : c.height s f = some k) {e : Descriptor}
    (hrow : (c.forest s).row f i = some e) (hd : d.present)
    (hwf : WellFormed addr c.root 3 ((c.forest s).write f i (some d)))
    (hsmall : k ≠ 0 → d.attr.large = false) :
    Tree m c (s.write f i d) ∧ c.forest (s.write f i d) = (c.forest s).write f i (some d) := by
  have hi : c.inSlots f i := ((Space.row_eq_some (by rw [hf]; rfl)).mp hrow).1
  have hseen : d.seen = some d := if_pos hd
  have hsame : (s.write f i d).setPresentEntries f (s.presentEntries f) = s.write f i d :=
    setPresentEntries_self (s := s.write f i d) h.nodup
  rw [← hsame, Space.forest_rewrite hf hi, hseen]
  refine ⟨h.rewrite hf hi (by rw [hseen]; exact hwf) hsmall fun hreg => ?_, rfl⟩
  rw [h.presentEntries_eq hf hreg, hseen]
  apply occupied_congr
  intro j _
  by_cases hj : j = i
  · rw [hj, row_write_self, hrow]
    rfl
  · rw [row_write_of_ne (fun hself => hj hself.2)]

end

end Write

/-! ## §7. An address space without tables. -/

/-- With nothing below the root there is nothing to count. -/
theorem Tree.init {m : Machine} {c : Space} {s : PagingState} (hnodup : s.frames.Nodup)
    (hin : ∀ g ∈ s.frames, g ∈ s.inUse) (hroot : c.root ∈ s.inUse) (hslot : s.findTable c.root =
      if c.registered then some ⟨c.owner, .pml4, c.root, c.root, 0⟩ else none)
    (halone : ∀ g md, s.findTable g = some md → md.owner = c.owner → md.rootPhys = c.root →
      g = c.root) (hempty : ∀ i, c.inSlots c.root i → (s.mem c.root i).present = false) :
    Tree m c s ∧ ∀ q, c.leaf s q = none := by
  -- The root is the only table of the address space.
  have honly : ∀ g k, c.height s g = some k → g = c.root ∧ k = 3 := by
    intro g k hg
    by_cases hgr : g = c.root
    · rw [hgr, Space.height_root] at hg
      exact ⟨hgr, (Option.some.inj hg).symm⟩
    · obtain ⟨md, hfind, howns, _⟩ := Space.findTable_of_height hg hgr
      exact absurd (halone g md hfind howns.1 howns.2.1) hgr
  have hrow : ∀ g i, (c.forest s).row g i = none := by
    intro g i
    cases hg : c.height s g with
    | none => exact Space.row_of_height_none hg
    | some k =>
      obtain ⟨rfl, _⟩ := honly g k hg
      rw [Space.row_def]
      cases hi : c.inSlots c.root i with
      | false => simp
      | true => simp [hempty i hi]
  refine ⟨⟨⟨Space.height_root, ?_, ?_, ?_, ?_, ?_⟩, hnodup, hin, hroot, ?_, ?_, ?_, ?_, ?_⟩,
    fun q => Forest.find_eq_none_of_row (hrow c.root) q⟩
  · intro g k hg
    exact Nat.le_of_eq (honly g k hg).2
  · exact fun g hg => (honly g 3 hg).1
  · intro f k i d _ hd
    rw [hrow] at hd
    cases hd
  · intro g k hg hk
    have := (honly g k hg).2
    omega
  · intro f f' k i i' d d' _ _ hd
    rw [hrow] at hd
    cases hd
  · rw [hslot]
    cases c.registered <;> rfl
  · intro g md hfind howner hrootPhys
    rw [halone g md hfind howner hrootPhys, Space.height_root]
    rfl
  · intro g k hg hk
    have := (honly g k hg).2
    omega
  · intro f k i d _ hd
    rw [hrow] at hd
    cases hd
  · intro f k md hf hfind
    obtain ⟨rfl, _⟩ := honly f k hf
    have hzero : md.presentEntries = 0 := by
      rw [hslot] at hfind
      cases hreg : c.registered with
      | false =>
        rw [hreg] at hfind
        cases hfind
      | true =>
        rw [hreg] at hfind
        cases hfind
        rfl
    rw [hzero]
    symm
    rw [occupied_eq_zero]
    intro i _
    rw [hrow]
    rfl

end BigOS.Mm.Paging
