/-
  BigOS.Mm.Paging.Model — the page tables of `kernel/mm/vmem.cc`.

  Physical memory is seen through the page tables only: a frame is a row of
  512 descriptors.  Tables that the kernel creates are registered in
  `gPageTableMetadata` together with the number of their present entries,
  which every path that writes a descriptor keeps by hand.

  The active tables are reached through the recursive self-mapping, others
  through the direct map; both name a table by its frame, so a table is its
  physical address here (`PAGING_DESCRIPTOR_ADDR_MASK` already applied) and
  `parent_frame` is the table a descriptor is written to.  TLB invalidation
  and interrupt masking do not change these structures.
-/
import BigOS.Lib.Slots
import BigOS.Mm.Memdef
import Mathlib.Data.List.MinMax

namespace BigOS.Mm.Paging

open Function

/-! ## §1. Descriptors and tables. -/

/-- The attribute bits of a descriptor (`page_attr`, and the large-page bit). -/
structure PageAttr where
  present : Bool
  writable : Bool
  user : Bool
  writeThrough : Bool
  cacheDisable : Bool
  large : Bool
  globalPage : Bool
  cow : Bool
  noExecute : Bool
  deriving Repr, DecidableEq

/-- No bit set. -/
def PageAttr.zero : PageAttr :=
  ⟨false, false, false, false, false, false, false, false, false⟩

/-- `page_attr::KERNEL_DEFAULT`. -/
def PageAttr.KERNEL_DEFAULT : PageAttr := { PageAttr.zero with present := true, writable := true }

/-- `page_attr::USER_DATA`. -/
def PageAttr.USER_DATA : PageAttr :=
  { PageAttr.zero with present := true, writable := true, user := true, noExecute := true }

/-- `DEFAULT_ATTR_PML4E`, with the user bit when the leaf is a user page. -/
def intermediateAttr (attr : PageAttr) : PageAttr :=
  { PageAttr.KERNEL_DEFAULT with user := attr.user }

/-- A paging descriptor: its address bits and its attribute bits. -/
structure Descriptor where
  addr : Nat
  attr : PageAttr
  deriving Repr, DecidableEq

/-- The descriptor `0`. -/
def Descriptor.zero : Descriptor := ⟨0, PageAttr.zero⟩

/-- `paging_present`. -/
def Descriptor.present (d : Descriptor) : Bool := d.attr.present

/-- `enum class PageTableOwner`, of a used slot. -/
inductive PageTableOwner where
  | kernelVmem
  | userAddressSpace
  deriving Repr, DecidableEq

/-- `enum class PageTableLevel`. -/
inductive PageTableLevel where
  | pml4
  | pdpt
  | pd
  | pt
  deriving Repr, DecidableEq

/-- `struct PageTableMetadata`, of a used slot. -/
structure PageTableMetadata where
  owner : PageTableOwner
  level : PageTableLevel
  rootPhys : Nat
  framePhys : Nat
  presentEntries : Nat
  deriving Repr, DecidableEq

/-- `PAGE_TABLE_METADATA_CAPACITY`. -/
def PAGE_TABLE_METADATA_CAPACITY : Nat := 512

/-- The number of descriptors of a table (`INDEX_MASK + 1`). -/
def TABLE_ENTRIES : Nat := 512

/-- The page allocator and the direct map, seen from the page tables: whether
the `n`-th order-0 request succeeds and with which frame, given the frames in
use, and which frames the direct map covers. -/
structure Machine where
  alloc : Nat → List Nat → Option Nat
  directMapped : Nat → Bool
  /-- A frame in use is not handed out again. -/
  alloc_fresh : ∀ n used f, alloc n used = some f → f ∉ used

/-- A machine with a frame for every request. -/
def Machine.unlimited : Machine where
  alloc _ used := some (used.foldr max 0 + PAGE_SIZE)
  directMapped _ := true
  alloc_fresh := by
    intro n used f hf hmem
    have hle := List.le_max_of_le' 0 hmem le_rfl
    rw [← Option.some.inj hf] at hle
    unfold PAGE_SIZE at hle
    omega

/-- The memory of the page tables and the state of the code that keeps it. -/
structure PagingState where
  mem : Nat → Nat → Descriptor
  /-- The used slots of `gPageTableMetadata`. -/
  tables : List PageTableMetadata
  /-- Frames handed out by the page allocator and not returned. -/
  inUse : List Nat
  /-- Requests made to the page allocator so far. -/
  clock : Nat
  /-- Frames passed to `free_physical_order`, in order. -/
  freed : List Nat
  /-- Leaf frames passed to `frame_ref_dec_and_maybe_free`, in order. -/
  released : List Nat

variable (m : Machine) (s : PagingState)

/-! ## §2. Memory and the page allocator. -/

namespace PagingState

/-- Write one descriptor. -/
def write (table index : Nat) (d : Descriptor) : PagingState :=
  { s with mem := update s.mem table (update (s.mem table) index d) }

/-- `memset(table, 0, PAGE_SIZE)`. -/
def clearTable (table : Nat) : PagingState :=
  { s with mem := update s.mem table (fun _ => Descriptor.zero) }

/-- One request has been answered with frame `f`. -/
def withFrame (f : Nat) : PagingState :=
  { s with clock := s.clock + 1, inUse := f :: s.inUse }

/-- `alloc_physical_order(0, 0)`. -/
def allocFrame : PagingState × Option Nat :=
  match m.alloc s.clock s.inUse with
  | none => ({ s with clock := s.clock + 1 }, none)
  | some f => (s.withFrame f, some f)

/-- `free_physical_order`. -/
def freeFrame (frame : Nat) : PagingState :=
  { s with inUse := s.inUse.filter (· ≠ frame), freed := s.freed ++ [frame] }

/-! ## §3. The registry. -/

/-- `find_page_table_metadata`. -/
def findTable (frame : Nat) : Option PageTableMetadata :=
  s.tables.find? (fun m => m.framePhys == frame)

/-- Fill a slot of the registry. -/
def addSlot (slot : PageTableMetadata) : PagingState :=
  { s with tables := s.tables ++ [slot] }

/-- `register_page_table`; nothing when it refuses. -/
def registerTable (root frame : Nat) (owner : PageTableOwner)
    (level : PageTableLevel) : Option PagingState :=
  if (s.findTable frame).isSome then none
  else if s.tables.length < PAGE_TABLE_METADATA_CAPACITY then
    some (s.addSlot ⟨owner, level, root, frame, 0⟩)
  else none

/-- `unregister_page_table`. -/
def unregisterTable (frame : Nat) : PagingState :=
  { s with tables := s.tables.eraseP (fun m => m.framePhys == frame) }

/-- Set the count of a table; no two used slots have one frame. -/
def setPresentEntries (frame n : Nat) : PagingState :=
  { s with tables := s.tables.map (fun md =>
      if md.framePhys = frame then { md with presentEntries := n } else md) }

/-- `increment_present_entry`; nothing when it returns false. -/
def incrementPresentEntry (frame : Nat) : Option PagingState :=
  match s.findTable frame with
  | none => some s
  | some m =>
    if m.presentEntries = TABLE_ENTRIES then none
    else some (s.setPresentEntries frame (m.presentEntries + 1))

/-- `decrement_present_entry`; nothing when it returns false. -/
def decrementPresentEntry (frame : Nat) : Option PagingState :=
  match s.findTable frame with
  | none => some s
  | some m =>
    if m.presentEntries = 0 then none
    else some (s.setPresentEntries frame (m.presentEntries - 1))

/-- `page_table_empty`. -/
def tableEmpty (frame : Nat) : Bool :=
  match s.findTable frame with
  | none => false
  | some m => m.presentEntries == 0

/-- `page_table_owned_by`. -/
def tableOwnedBy (frame root : Nat) (owner : PageTableOwner) (level : PageTableLevel) : Bool :=
  match s.findTable frame with
  | none => false
  | some m => m.owner == owner && m.level == level && m.rootPhys == root

end PagingState

/-! ## §4. Mapping one page. -/

/-- `struct OwnedPagingDescriptorChange`, the fields the rollback reads. -/
structure Change where
  table : Nat
  index : Nat
  childFrame : Nat
  deriving Repr, DecidableEq

/-- The body of `clear_owned_paging_descriptors` for one change.  The result
of the decrement is not looked at. -/
def PagingState.clearChange (c : Change) : PagingState :=
  let s := s.write c.table c.index Descriptor.zero
  let s := (s.decrementPresentEntry c.table).getD s
  (s.unregisterTable c.childFrame).freeFrame c.childFrame

/-- `clear_owned_paging_descriptors`: the newest change first. -/
def PagingState.clearOwned (changes : List Change) : PagingState :=
  changes.reverse.foldl PagingState.clearChange s

/-- `ensure_owned_descriptor`: whether the descriptor is there afterwards, the
state and the changes recorded so far. -/
def ensureOwnedDescriptor (table index : Nat) (attr : PageAttr)
    (root : Nat) (owner : PageTableOwner) (childLevel : PageTableLevel)
    (changes : List Change) : Bool × PagingState × List Change :=
  let e := s.mem table index
  if e.present then
    if attr.user && !e.attr.user then
      (true, s.write table index { e with attr := { e.attr with user := true } }, changes)
    else (true, s, changes)
  else
    match s.allocFrame m with
    | (s, none) => (false, s, changes)
    | (s, some page) =>
      if !m.directMapped page then (false, s.freeFrame page, changes)
      else
        match (s.clearTable page).registerTable root page owner childLevel with
        | none => (false, (s.clearTable page).freeFrame page, changes)
        | some s =>
          let s := s.write table index ⟨page, attr⟩
          match s.incrementPresentEntry table with
          | none =>
            (false, ((s.write table index Descriptor.zero).unregisterTable page).freeFrame
              page, changes)
          | some s => (true, s, changes ++ [⟨table, index, page⟩])

/-- `get_pml4_index`. -/
def pml4Index (vaddr : Nat) : Nat := vaddr / 2 ^ 39 % TABLE_ENTRIES

/-- `get_pdpt_index`. -/
def pdptIndex (vaddr : Nat) : Nat := vaddr / 2 ^ 30 % TABLE_ENTRIES

/-- `get_pd_index`. -/
def pdIndex (vaddr : Nat) : Nat := vaddr / 2 ^ 21 % TABLE_ENTRIES

/-- `get_pt_index`. -/
def ptIndex (vaddr : Nat) : Nat := vaddr / 2 ^ 12 % TABLE_ENTRIES

/-- The three levels above the page table, as index and level below. -/
def pathOf (vaddr : Nat) : List (Nat × PageTableLevel) :=
  [(pml4Index vaddr, .pdpt), (pdptIndex vaddr, .pd), (pdIndex vaddr, .pt)]

/-- The walk of `map_single_page` and `map_root_page` down to the page table:
its frame, or nothing when the function returns false, with the state and the
changes recorded.  `checked` is the test of `map_root_page` that the next table
is in the direct map; it returns without rolling back. -/
def descend (m : Machine) (checked : Bool) (attr : PageAttr) (root : Nat) (owner : PageTableOwner) :
    List (Nat × PageTableLevel) → Nat → List Change → PagingState →
      Option Nat × PagingState × List Change
  | [], table, changes, s => (some table, s, changes)
  | (index, level) :: path, table, changes, s =>
    match ensureOwnedDescriptor m s table index attr root owner level changes with
    | (false, s, changes) => (none, s.clearOwned changes, [])
    | (true, s, changes) =>
      let next := (s.mem table index).addr
      if checked && !m.directMapped next then (none, s, changes)
      else descend m checked attr root owner path next changes s

/-- The end of both functions: publish the leaf. -/
def publishLeaf (table index : Nat) (d : Descriptor) (changes : List Change) : Bool × PagingState :=
  if (s.mem table index).present then (false, s.clearOwned changes)
  else
    let s := s.write table index d
    match s.incrementPresentEntry table with
    | none => (false, (s.write table index Descriptor.zero).clearOwned changes)
    | some s => (true, s)

/-- `phys & PAGING_DESCRIPTOR_ADDR_MASK`. -/
def descriptorAddr (phys : Nat) : Nat := phys % 2 ^ 52 / PAGE_SIZE * PAGE_SIZE

/-- The common body of `map_single_page` and `map_root_page`. -/
def mapPage (checked : Bool) (owner : PageTableOwner) (root : Nat)
    (s : PagingState) (vaddr phys : Nat) (attr : PageAttr) : Bool × PagingState :=
  match descend m checked (intermediateAttr attr) root owner (pathOf vaddr) root [] s with
  | (none, s, _) => (false, s)
  | (some table, s, changes) =>
    publishLeaf s table (ptIndex vaddr) ⟨descriptorAddr phys, attr⟩ changes

/-- `map_single_page`, with the active root. -/
def mapSinglePage (cr3 : Nat) (s : PagingState) (vaddr phys : Nat)
    (attr : PageAttr) : Bool × PagingState :=
  mapPage m false .kernelVmem cr3 s vaddr phys attr

/-- `map_root_page`. -/
def mapRootPage (root : Nat) (s : PagingState) (vaddr phys : Nat)
    (attr : PageAttr) : Bool × PagingState :=
  if !m.directMapped root then (false, s)
  else mapPage m true .userAddressSpace root s vaddr phys attr

/-- `map_page_in_root`. -/
def mapPageInRoot (root : Nat) (s : PagingState) (vaddr phys : Nat)
    (attr : PageAttr) : Bool × PagingState :=
  if vaddr % PAGE_SIZE ≠ 0 ∨ phys % PAGE_SIZE ≠ 0 then (false, s)
  else mapRootPage m root s vaddr phys attr

/-! ## §5. Unmapping and remapping a user page. -/

/-- The walk of `root_pte`: the page table of an address. -/
def rootPt (root vaddr : Nat) : Option Nat :=
  if !m.directMapped root || !(s.mem root (pml4Index vaddr)).present then none
  else
    let pdpt := (s.mem root (pml4Index vaddr)).addr
    if !m.directMapped pdpt || !(s.mem pdpt (pdptIndex vaddr)).present then none
    else
      let pd := (s.mem pdpt (pdptIndex vaddr)).addr
      if !m.directMapped pd || !(s.mem pd (pdIndex vaddr)).present then none
      else if (s.mem pd (pdIndex vaddr)).attr.large then none
      else
        let pt := (s.mem pd (pdIndex vaddr)).addr
        if !m.directMapped pt then none else some pt

/-- The user leaf of an address: the page table and the descriptor. -/
def userLeaf (root vaddr : Nat) : Option (Nat × Descriptor) :=
  match rootPt m s root vaddr with
  | none => none
  | some pt =>
    let e := s.mem pt (ptIndex vaddr)
    if !e.present || !e.attr.user then none else some (pt, e)

/-- One stanza of `reclaim_empty_tables_in_root`: the empty table `child` below
`parent` is cut off, counted out of its parent, unregistered and freed.
Nothing when the stanza does not apply; `(false, _)` when the decrement fails. -/
def reclaimTable (root parent index child : Nat) (owner : PageTableOwner)
    (level : PageTableLevel) : Option (Bool × PagingState) :=
  if s.tableOwnedBy child root owner level && s.tableEmpty child then
    let s := s.write parent index Descriptor.zero
    match s.decrementPresentEntry parent with
    | none => some (false, s)
    | some s => some (true, (s.unregisterTable child).freeFrame child)
  else none

/-- The last stanza, for a table below the root: it does not decrement. -/
def reclaimPdpt (root index child : Nat) (owner : PageTableOwner) : PagingState :=
  if s.tableOwnedBy child root owner .pdpt && s.tableEmpty child then
    ((s.write root index Descriptor.zero).unregisterTable child).freeFrame child
  else s

/-- `reclaim_empty_tables_in_root`. -/
def reclaimEmptyTablesInRoot (root vaddr : Nat) (owner : PageTableOwner) : Bool × PagingState :=
  if !m.directMapped root then (false, s)
  else if !(s.mem root (pml4Index vaddr)).present then (true, s)
  else
    let pdpt := (s.mem root (pml4Index vaddr)).addr
    if !m.directMapped pdpt then (false, s)
    else if !(s.mem pdpt (pdptIndex vaddr)).present then (true, s)
    else
      let pd := (s.mem pdpt (pdptIndex vaddr)).addr
      if !m.directMapped pd then (false, s)
      else if !(s.mem pd (pdIndex vaddr)).present then (true, s)
      else
        let pt := (s.mem pd (pdIndex vaddr)).addr
        match reclaimTable s root pd (pdIndex vaddr) pt owner .pt with
        | none => (true, s)
        | some (false, s) => (false, s)
        | some (true, s) =>
          match reclaimTable s root pdpt (pdptIndex vaddr) pd owner .pd with
          | none => (true, s)
          | some (false, s) => (false, s)
          | some (true, s) => (true, reclaimPdpt s root (pml4Index vaddr) pdpt owner)

/-- `unmap_user_page_in_root`; the result is the frame that was mapped. -/
def unmapUserPageInRoot (root : Nat) (s : PagingState) (vaddr : Nat) : Option Nat × PagingState :=
  if vaddr % PAGE_SIZE ≠ 0 then (none, s)
  else
    match userLeaf m s root vaddr with
    | none => (none, s)
    | some (pt, e) =>
      let s := s.write pt (ptIndex vaddr) Descriptor.zero
      match s.decrementPresentEntry pt with
      | none => (none, s)
      | some s =>
        match reclaimEmptyTablesInRoot m s root vaddr .userAddressSpace with
        | (false, s) => (none, s)
        | (true, s) => (some e.addr, s)

/-- `remap_user_page_in_root`. -/
def remapUserPageInRoot (root : Nat) (s : PagingState) (vaddr phys : Nat)
    (attr : PageAttr) : Bool × PagingState :=
  if vaddr % PAGE_SIZE ≠ 0 ∨ phys % PAGE_SIZE ≠ 0 then (false, s)
  else
    match userLeaf m s root vaddr with
    | none => (false, s)
    | some (pt, _) => (true, s.write pt (ptIndex vaddr) ⟨descriptorAddr phys, attr⟩)

/-! ## §6. User address spaces. -/

/-- `derive_user_address_space_root`: an empty lower half and the upper half of
the active root. -/
def deriveUserAddressSpaceRoot (cr3 : Nat) (s : PagingState) : Option Nat × PagingState :=
  match s.allocFrame m with
  | (s, none) => (none, s)
  | (s, some root) =>
    if !m.directMapped root then (none, s.freeFrame root)
    else
      let row (i : Nat) : Descriptor := if i < 256 then Descriptor.zero else s.mem cr3 i
      let s := { s with mem := update s.mem root row }
      match s.registerTable root root .userAddressSpace .pml4 with
      | none => (none, s.freeFrame root)
      | some s => (some root, s)

/-- `frame_ref_dec_and_maybe_free` on a leaf frame: one reference is dropped. -/
def PagingState.releaseLeaf (frame : Nat) : PagingState :=
  { s with released := s.released ++ [frame] }

/-- A `for` loop whose body returns false to give up. -/
def forEach (body : PagingState → Nat → Bool × PagingState) :
    List Nat → PagingState → Bool × PagingState
  | [], s => (true, s)
  | i :: rest, s =>
    match body s i with
    | (false, s) => (false, s)
    | (true, s) => forEach body rest s

/-- The innermost body of `teardown_user_low_half`: entry `i` of a page table. -/
def teardownLeaf (pt : Nat) (s : PagingState) (i : Nat) : Bool × PagingState :=
  let e := s.mem pt i
  if !e.present then (true, s)
  else
    let s := s.write pt i Descriptor.zero
    match s.decrementPresentEntry pt with
    | none => (false, s)
    | some s => (true, s.releaseLeaf e.addr)

/-- The body of one of the outer loops: entry `i` of the table `parent`, whose
tables below are of `level` and are emptied by `below`.  Only the loop over a
page directory looks for large pages. -/
def teardownEntry (root : Nat) (level : PageTableLevel)
    (below : Nat → PagingState → Bool × PagingState) (parent : Nat) (s : PagingState) (i : Nat) :
    Bool × PagingState :=
  let e := s.mem parent i
  if !e.present then (true, s)
  else if level == .pt && e.attr.large then (false, s)
  else if !s.tableOwnedBy e.addr root .userAddressSpace level then (false, s)
  else if !m.directMapped e.addr then (false, s)
  else
    match below e.addr s with
    | (false, s) => (false, s)
    | (true, s) =>
      if !s.tableEmpty e.addr then (false, s)
      else
        let s := s.write parent i Descriptor.zero
        match s.decrementPresentEntry parent with
        | none => (false, s)
        | some s => (true, (s.unregisterTable e.addr).freeFrame e.addr)

/-- The loop over a page table. -/
def teardownPt (pt : Nat) (s : PagingState) : Bool × PagingState :=
  forEach (teardownLeaf pt) (List.range 512) s

/-- The loop over a page directory. -/
def teardownPd (root pd : Nat) (s : PagingState) : Bool × PagingState :=
  forEach (teardownEntry m root .pt teardownPt pd) (List.range 512) s

/-- The loop over a page-directory-pointer table. -/
def teardownPdpt (root pdpt : Nat) (s : PagingState) : Bool × PagingState :=
  forEach (teardownEntry m root .pd (teardownPd m root) pdpt) (List.range 512) s

/-- `teardown_user_low_half`. -/
def teardownUserLowHalf (root : Nat) (s : PagingState) : Bool × PagingState :=
  if !m.directMapped root then (false, s)
  else
    match forEach (teardownEntry m root .pdpt (teardownPdpt m root) root) (List.range 256) s with
    | (false, s) => (false, s)
    | (true, s) => (s.tableEmpty root, s)

/-- `teardown_user_address_space`, with the active root. -/
def teardownUserAddressSpace (cr3 : Nat) (s : PagingState) (root : Nat) : Bool × PagingState :=
  if root = cr3 then (false, s)
  else if !s.tableOwnedBy root root .userAddressSpace .pml4 then (false, s)
  else
    match teardownUserLowHalf m root s with
    | (false, s) => (false, s)
    | (true, s) => (true, (s.unregisterTable root).freeFrame root)

/-- A call on a user address space. -/
inductive UserOp where
  | map (vaddr phys : Nat) (attr : PageAttr)
  | unmap (vaddr : Nat)
  | remap (vaddr phys : Nat) (attr : PageAttr)
  deriving Repr, DecidableEq

/-- One call on the address space of `root`. -/
def userStep (root : Nat) (s : PagingState) : UserOp → PagingState
  | .map vaddr phys attr => (mapPageInRoot m root s vaddr phys attr).2
  | .unmap vaddr => (unmapUserPageInRoot m root s vaddr).2
  | .remap vaddr phys attr => (remapUserPageInRoot m root s vaddr phys attr).2

/-- A sequence of calls. -/
def userRun (root : Nat) (s : PagingState) (ops : List UserOp) : PagingState :=
  ops.foldl (userStep m root) s

end BigOS.Mm.Paging
