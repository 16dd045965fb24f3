/-
  BigOS.Mm.Vmem.Model — the kernel's page-range allocator (`VMem` of
  `kernel/mm/vmem.cc`) with its mapping of the ranges it hands out.

  Address ranges are kept in two lists of blocks; a block of a pre-paged
  allocation also lists the physical blocks behind it.  The physical blocks and
  the list nodes come from the page allocator and from the slab allocator
  underneath, which answer each request with a block or an object, or refuse
  it; what goes back to them is not followed further.  Addresses stay below
  2^64 and page counts below 2^32 for the one range `init_vmem` sets up, so both
  are natural numbers.
-/
import BigOS.Mm.Paging.Model

namespace BigOS.Mm.Vmem

open BigOS.Mm.Paging

/-! ## §1. Blocks and lists of blocks. -/

/-- `KVMEM_BASE`. -/
def KVMEM_BASE : Nat := 0xffff880000000000

/-- `KVMEM_LEN`. -/
def KVMEM_LEN : Nat := 0x10000000000

/-- `struct MemoryBlock`; `physicalArea` holds base and page count of each
physical block. -/
structure MemoryBlock where
  base : Nat
  nrPages : Nat
  physicalArea : List (Nat × Nat)
  deriving Repr, DecidableEq

/-- The address after a block. -/
def MemoryBlock.endAddr (b : MemoryBlock) : Nat := b.base + b.nrPages * PAGE_SIZE

/-- The lists and the counter of `class VMem`. -/
structure VMem where
  freeArea : List MemoryBlock
  usedArea : List MemoryBlock
  nrFreePages : Nat
  deriving Repr, DecidableEq

/-- The machine below: page tables, physical blocks and slab objects. -/
structure KernelMachine extends Machine where
  /-- The answer to the `n`-th request for a physical block of an order. -/
  allocBlock : Nat → Nat → Option Nat
  /-- Whether the `n`-th `new` succeeds. -/
  newObject : Nat → Bool

/-- The kernel's ranges, its page tables, and how many physical blocks and
objects it has asked for. -/
structure KernelState where
  vmem : VMem
  paging : PagingState
  requests : Nat

/-- The blocks before the place where a block with this base is inserted. -/
def before (base : Nat) (l : List MemoryBlock) : List MemoryBlock :=
  l.takeWhile (fun b => b.base ≤ base)

/-- The blocks after that place. -/
def after (base : Nat) (l : List MemoryBlock) : List MemoryBlock :=
  l.dropWhile (fun b => b.base ≤ base)

/-- The second half of `VMem::merge`: join `mblk` to the block before it.  The
result is the joined block and the rest of the list. -/
def mergePrevious (pre : List MemoryBlock) (mblk : MemoryBlock) (post : List MemoryBlock) :
    Option (MemoryBlock × List MemoryBlock) :=
  match pre.getLast? with
  | some prev =>
    if prev.endAddr = mblk.base then
      some ({ prev with nrPages := prev.nrPages + mblk.nrPages }, pre.dropLast ++ post)
    else none
  | none => none

/-- One merge: with the next block, else with the previous one. -/
def mergeStep (pre : List MemoryBlock) (mblk : MemoryBlock) (post : List MemoryBlock) :
    Option (MemoryBlock × List MemoryBlock) :=
  match post with
  | next :: rest =>
    if mblk.endAddr = next.base then
      some ({ mblk with nrPages := mblk.nrPages + next.nrPages }, pre ++ rest)
    else mergePrevious pre mblk post
  | [] => mergePrevious pre mblk post

/-- `VMem::merge`: the free list around `mblk` is `pre ++ mblk :: post`.  A
merge takes one of the other blocks out of the list, so their number bounds
the recursion. -/
def merge : Nat → List MemoryBlock → MemoryBlock → List MemoryBlock → List MemoryBlock
  | 0, pre, mblk, post => pre ++ mblk :: post
  | n + 1, pre, mblk, post =>
    match mergeStep pre mblk post with
    | none => pre ++ mblk :: post
    | some (joined, l) => merge n (before joined.base l) joined (after joined.base l)

/-- Insert a block and merge it, the end of `VMem::__free`. -/
def insertMerged (mblk : MemoryBlock) (l : List MemoryBlock) : List MemoryBlock :=
  merge l.length (before mblk.base l) mblk (after mblk.base l)

/-! ## §2. `VMem::__alloc_pages`. -/

/-- One `new`. -/
def KernelState.newObject (m : KernelMachine) (s : KernelState) : Bool × KernelState :=
  (m.newObject s.requests, { s with requests := s.requests + 1 })

/-- Take `pages` pages from the free block `mblk`, which is out of the free list
`rest`.  The rest of a larger block goes back in order; when one of its two
objects is refused, the whole block goes back to the end of the list. -/
def splitBlock (m : KernelMachine) (s : KernelState) (mblk : MemoryBlock)
    (rest : List MemoryBlock) (pages : Nat) : Option MemoryBlock × KernelState :=
  let refused (s : KernelState) : Option MemoryBlock × KernelState :=
    (none, { s with vmem := { s.vmem with freeArea := rest ++ [mblk] } })
  let taken (s : KernelState) (mblk : MemoryBlock) (free : List MemoryBlock) :
      Option MemoryBlock × KernelState :=
    (some mblk, { s with vmem :=
      ⟨free, s.vmem.usedArea ++ [mblk], s.vmem.nrFreePages - pages⟩ })
  if mblk.nrPages > pages then
    match s.newObject m with
    | (false, s) => refused s
    | (true, s) =>
      let upper : MemoryBlock := ⟨mblk.base + PAGE_SIZE * pages, mblk.nrPages - pages, []⟩
      match s.newObject m with
      | (false, s) => refused s
      | (true, s) =>
        taken s { mblk with nrPages := pages }
          (before upper.base rest ++ upper :: after upper.base rest)
  else taken s mblk rest

/-- `VMem::__alloc_pages`: the first block that is large enough. -/
def allocPages (m : KernelMachine) (s : KernelState) (pages : Nat) :
    Option MemoryBlock × KernelState :=
  if pages = 0 ∨ s.vmem.nrFreePages < pages then (none, s)
  else
    match s.vmem.freeArea.find? (fun b => b.nrPages ≥ pages) with
    | none => (none, s)
    | some mblk =>
      splitBlock m s mblk (s.vmem.freeArea.eraseP (fun b => b.nrPages ≥ pages)) pages

/-! ## §3. Mapping a range. -/

/-- The walk of `mapped_pte`: the page table of an address of the active root. -/
def mappedPt (s : PagingState) (cr3 vaddr : Nat) : Option Nat :=
  if !(s.mem cr3 (pml4Index vaddr)).present then none
  else
    let pdpt := (s.mem cr3 (pml4Index vaddr)).addr
    if !(s.mem pdpt (pdptIndex vaddr)).present then none
    else
      let pd := (s.mem pdpt (pdptIndex vaddr)).addr
      if !(s.mem pd (pdIndex vaddr)).present then none
      else some (s.mem pd (pdIndex vaddr)).addr

/-- One page of `VMem::rollback_kernel_range`: a present entry is cleared. -/
def rollbackPage (cr3 : Nat) (s : PagingState) (vaddr : Nat) : PagingState :=
  match mappedPt s cr3 vaddr with
  | none => s
  | some pt =>
    if (s.mem pt (ptIndex vaddr)).present then s.write pt (ptIndex vaddr) Descriptor.zero else s

/-- The addresses of the pages of a range. -/
def rangePages (base nrPages : Nat) : List Nat :=
  (List.range nrPages).map (fun i => base + i * PAGE_SIZE)

/-- `VMem::rollback_kernel_range`. -/
def rollbackKernelRange (cr3 : Nat) (s : PagingState) (base nrPages : Nat) : PagingState :=
  (rangePages base nrPages).foldl (rollbackPage cr3) s

/-- The loop of `VMem::map_kernel_range` over the pages behind a range: whether
all were mapped, and how many were. -/
def mapPages (m : Machine) (cr3 : Nat) : List Nat → Nat → Nat → PagingState →
    Bool × Nat × PagingState
  | [], _, mapped, s => (true, mapped, s)
  | phys :: rest, vaddr, mapped, s =>
    match mapSinglePage m cr3 s vaddr phys PageAttr.KERNEL_DEFAULT with
    | (false, s) => (false, mapped, s)
    | (true, s) => mapPages m cr3 rest (vaddr + PAGE_SIZE) (mapped + 1) s

/-- The physical pages of a list of physical blocks. -/
def physicalPages (area : List (Nat × Nat)) : List Nat :=
  area.flatMap (fun e => rangePages e.1 e.2)

/-- `VMem::map_kernel_range`. -/
def mapKernelRange (m : Machine) (cr3 : Nat) (s : PagingState) (mblk : MemoryBlock) :
    Bool × PagingState :=
  match mapPages m cr3 (physicalPages mblk.physicalArea) mblk.base 0 s with
  | (true, _, s) => (true, s)
  | (false, mapped, s) => (false, rollbackKernelRange cr3 s mblk.base mapped)

/-- `VMem::unmap_kernel_range`. -/
def unmapKernelRange (cr3 : Nat) (s : PagingState) (mblk : MemoryBlock) : PagingState :=
  if mblk.physicalArea = [] then s
  else
    let mapped := (mblk.physicalArea.map (·.2)).sum
    rollbackKernelRange cr3 s mblk.base (if mapped > mblk.nrPages then mblk.nrPages else mapped)

/-! ## §4. Freeing and allocating. -/

/-- `VMem::__free`. -/
def vmemFree (cr3 : Nat) (s : KernelState) (p : Nat) : KernelState :=
  if p = 0 then s
  else
    match s.vmem.usedArea.find? (fun b => b.base == p) with
    | none => s
    | some mblk =>
      { s with
        paging := unmapKernelRange cr3 s.paging mblk
        vmem :=
          { freeArea := insertMerged { mblk with physicalArea := [] } s.vmem.freeArea
            usedArea := s.vmem.usedArea.eraseP (fun b => b.base == p)
            nrFreePages := s.vmem.nrFreePages + mblk.nrPages } }

/-- The orders of the physical blocks behind `nrPages` pages, as the loop of
`alloc_kernel_pages` asks for them: as many as fit of each order, from
`order` down. -/
def blockOrders : Nat → Nat → List Nat
  | 0, nrPages => List.replicate nrPages 0
  | order + 1, nrPages =>
    List.replicate (nrPages / 2 ^ (order + 1)) (order + 1) ++
      blockOrders order (nrPages % 2 ^ (order + 1))

/-- The loop of `alloc_kernel_pages` over the orders: whether every block and
its list node was had, and the blocks on the list.  A block whose node is
refused goes back at once. -/
def backPages (m : KernelMachine) : List Nat → List (Nat × Nat) → KernelState →
    Bool × List (Nat × Nat) × KernelState
  | [], area, s => (true, area, s)
  | order :: rest, area, s =>
    match m.allocBlock s.requests order with
    | none => (false, area, { s with requests := s.requests + 1 })
    | some phys =>
      match KernelState.newObject m { s with requests := s.requests + 1 } with
      | (false, s) => (false, area, s)
      | (true, s) => backPages m rest (area ++ [(phys, 2 ^ order)]) s

/-- The physical blocks of the used block at `base`. -/
def KernelState.setPhysicalArea (s : KernelState) (base : Nat) (area : List (Nat × Nat)) :
    KernelState :=
  let used := s.vmem.usedArea.map
    (fun b => if b.base = base then { b with physicalArea := area } else b)
  { s with vmem := { s.vmem with usedArea := used } }

/-- `alloc_kernel_pages`; the result is the base of the range. -/
def allocKernelPages (m : KernelMachine) (cr3 : Nat) (s : KernelState) (pages : Nat)
    (prePaging : Bool) : Option Nat × KernelState :=
  match allocPages m s pages with
  | (none, s) => (none, s)
  | (some mblk, s) =>
    if !prePaging then (some mblk.base, s)
    else
      match backPages m (blockOrders BUDDY_MAX_ORDER mblk.nrPages) [] s with
      | (false, area, s) => (none, vmemFree cr3 (s.setPhysicalArea mblk.base area) mblk.base)
      | (true, area, s) =>
        let s := s.setPhysicalArea mblk.base area
        match mapKernelRange m.toMachine cr3 s.paging { mblk with physicalArea := area } with
        | (false, paging) => (none, vmemFree cr3 { s with paging := paging } mblk.base)
        | (true, paging) => (some mblk.base, { s with paging := paging })

/-- The state `init_vmem` leaves. -/
def VMem.init : VMem where
  freeArea := [⟨KVMEM_BASE, KVMEM_LEN / PAGE_SIZE, []⟩]
  usedArea := []
  nrFreePages := KVMEM_LEN / PAGE_SIZE

/-! ## §5. Runs. -/

/-- A call of the interface: `alloc_kernel_pages(n, _GFM_PRE_PAGING)` or
`free_pages(p)`. -/
inductive Op where
  | allocPages (pages : Nat)
  | freePages (p : Nat)
  deriving Repr, DecidableEq

/-- One call. -/
def step (m : KernelMachine) (cr3 : Nat) (s : KernelState) : Op → KernelState
  | .allocPages pages => (allocKernelPages m cr3 s pages true).2
  | .freePages p => vmemFree cr3 s p

/-- A sequence of calls. -/
def run (m : KernelMachine) (cr3 : Nat) (s : KernelState) (ops : List Op) : KernelState :=
  ops.foldl (step m cr3) s

end BigOS.Mm.Vmem
