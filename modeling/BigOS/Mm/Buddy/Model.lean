/-
  BigOS.Mm.Buddy.Model — the physical page allocator of `kernel/mm/buddy.cc`.

  A zone keeps, for every order, the list of its free `PageBlock`s sorted by
  base address.  `baseFree` inserts a block and merges it with an
  address-adjacent block of the same order, one order at a time;
  `Zone.alloc` takes the head of the first non-empty list, splits it and
  hands the pieces back to `baseFree`.

  A list node and the `PageBlock` it carries are one value here: the node
  that survives a merge matters only for which metadata is destroyed.  Every
  call site passes a block to the zone the block points to, so `this` and
  `pblk->zone` are the same zone.
-/
import BigOS.Lib.Carve
import BigOS.Mm.Memdef

namespace BigOS.Mm.Buddy

open BigOS.Lib.Carve

/-! ## §1. Zones and page blocks. -/

/-- The entries of `zone_arr`. -/
inductive ZoneId where
  | dma
  | dma32
  | normal
  deriving Repr, DecidableEq

/-- `struct PageBlock`. -/
structure PageBlock where
  zone : ZoneId
  base : Nat
  len : Nat
  flags : Nat
  order : Nat
  deriving Repr, DecidableEq

/-- `class Zone`: the free lists by order and the two page counters. -/
structure Zone where
  freeArea : Nat → List PageBlock
  nrPages : Nat
  nrFreePages : Nat

/-- The zone with the list of one order replaced. -/
def Zone.setArea (z : Zone) (order : Nat) (ls : List PageBlock) : Zone :=
  { z with freeArea := Function.update z.freeArea order ls }

@[simp] theorem Zone.setArea_nrFreePages (z : Zone) (k : Nat) (ls : List PageBlock) :
    (z.setArea k ls).nrFreePages = z.nrFreePages := rfl

@[simp] theorem Zone.setArea_self (z : Zone) (k : Nat) (ls : List PageBlock) :
    (z.setArea k ls).freeArea k = ls := by
  simp [Zone.setArea]

theorem Zone.setArea_other (z : Zone) {j k : Nat} (h : j ≠ k) (ls : List PageBlock) :
    (z.setArea k ls).freeArea j = z.freeArea j := by
  simp [Zone.setArea, h]

/-! ## §2. Freeing and merging. -/

/-- The blocks before the insertion position: the loop of `__base_free` stops
at the first block with a larger base. -/
def lowerPart (base : Nat) (ls : List PageBlock) : List PageBlock :=
  ls.takeWhile (fun p => decide (p.base ≤ base))

/-- The blocks from the insertion position on. -/
def upperPart (base : Nat) (ls : List PageBlock) : List PageBlock :=
  ls.dropWhile (fun p => decide (p.base ≤ base))

/-- `ls.insert(iter, node)` at the position the loop found. -/
def insertByBase (pblk : PageBlock) (ls : List PageBlock) : List PageBlock :=
  lowerPart pblk.base ls ++ pblk :: upperPart pblk.base ls

/-- The second half of `Zone::merge`: join with the previous block. -/
def mergePrev (lower : List PageBlock) (pblk : PageBlock) (upper : List PageBlock) :
    Option (List PageBlock × PageBlock) :=
  match lower.getLast? with
  | some prev =>
    if prev.base + prev.len = pblk.base then
      some (lower.dropLast ++ upper,
        { prev with len := prev.len + pblk.len, order := prev.order + 1 })
    else none
  | none => none

/-- `Zone::merge` up to its call of `__base_free`: the list with both blocks
erased and the joined block, or nothing when the block stays as it is.  The
next block is tried first. -/
def merge (lower : List PageBlock) (pblk : PageBlock) (upper : List PageBlock) :
    Option (List PageBlock × PageBlock) :=
  if BUDDY_MAX_ORDER ≤ pblk.order then none
  else
    match upper with
    | next :: rest =>
      if pblk.base + pblk.len = next.base then
        some (lower ++ rest, { pblk with len := pblk.len + next.len, order := pblk.order + 1 })
      else mergePrev lower pblk upper
    | [] => mergePrev lower pblk upper

/-- `__base_free` and the merges it starts; every merge raises the order, so
`BUDDY_MAX_ORDER + 1 - order` rounds suffice. -/
def baseFreeLoop : Nat → Zone → PageBlock → Zone
  | 0, z, _ => z
  | fuel + 1, z, pblk =>
    if BUDDY_MAX_ORDER < pblk.order then z
    else
      let ls := z.freeArea pblk.order
      match merge (lowerPart pblk.base ls) pblk (upperPart pblk.base ls) with
      | none => z.setArea pblk.order (insertByBase pblk ls)
      | some (ls', joined) => baseFreeLoop fuel (z.setArea pblk.order ls') joined

/-- `Zone::__base_free`. -/
def Zone.baseFree (z : Zone) (pblk : PageBlock) : Zone :=
  baseFreeLoop (BUDDY_MAX_ORDER + 1 - pblk.order) z pblk

/-- `Zone::free`, without the global counter. -/
def Zone.free (z : Zone) (pblk : PageBlock) : Zone :=
  let z' := z.baseFree pblk
  { z' with nrFreePages := u32 (z'.nrFreePages + 2 ^ pblk.order) }

/-- `Zone::__new_free`, without the global counters. -/
def Zone.newFree (z : Zone) (pblk : PageBlock) : Zone :=
  let z' := z.baseFree pblk
  { z' with
    nrPages := u32 (z'.nrPages + 2 ^ pblk.order)
    nrFreePages := u32 (z'.nrFreePages + 2 ^ pblk.order) }

/-! ## §3. Allocating and splitting. -/

/-- The first order from `order` on whose list is not empty. -/
def Zone.findOrder (z : Zone) (order : Nat) : Option Nat :=
  (List.range' order (BUDDY_MAX_ORDER + 1 - order)).find? (fun k => !(z.freeArea k).isEmpty)

/-- A block of a zone over one chunk of a range. -/
def chunkBlock (zone : ZoneId) (flags : Nat) (c : Chunk) : PageBlock :=
  { zone := zone, base := c.base, len := getPblkSize c.order, flags := flags, order := c.order }

/-- The remainder pieces of a split: what follows the head of order `order`
in a block of order `realOrder`, largest piece first. -/
def splitPieces (self : ZoneId) (pblk : PageBlock) (realOrder order : Nat) : List PageBlock :=
  (carve PAGE_SIZE BUDDY_MAX_ORDER (pblk.base + getPblkSize order)
    (PAGE_SIZE * (2 ^ realOrder - 2 ^ order))).map (chunkBlock self pblk.flags)

/-- The bookkeeping after `split_done`. -/
def Zone.take (z : Zone) (pblk : PageBlock) : Zone :=
  { z with nrFreePages := u32Sub z.nrFreePages (2 ^ pblk.order) }

/-- `Zone::alloc`.  `news i` says whether the `i`-th metadata `new` of the
call succeeds: two per remainder piece, in the order of the pieces. -/
def Zone.alloc (z : Zone) (self : ZoneId) (order : Nat) (news : Nat → Bool) :
    Zone × Option PageBlock :=
  match z.findOrder order with
  | none => (z, none)
  | some realOrder =>
    match z.freeArea realOrder with
    | [] => (z, none)
    | pblk :: rest =>
      let z₁ := z.setArea realOrder rest
      if order < realOrder then
        let pieces := splitPieces self pblk realOrder order
        if (List.range (2 * pieces.length)).all news then
          let head := { pblk with order := order, len := getPblkSize order }
          ((pieces.foldl Zone.baseFree z₁).take head, some head)
        else
          -- `split_failed`: the original block goes back into its list
          (z₁.setArea pblk.order (insertByBase pblk (z₁.freeArea pblk.order)), none)
      else (z₁.take pblk, some pblk)

/-! ## §4. The global state and the two order interfaces. -/

/-- The globals of `buddy.cc`. -/
structure State where
  zone : ZoneId → Zone
  /-- The list `gPageBlockList` of the allocated blocks. -/
  pageBlockList : List PageBlock
  /-- The counter `gNrPages`. -/
  nrPages : Nat
  /-- The counter `gNrFreePages`. -/
  nrFreePages : Nat

/-- The state with one zone replaced. -/
def State.setZone (s : State) (i : ZoneId) (z : Zone) : State :=
  { s with zone := Function.update s.zone i z }

/-- `Zone::alloc` on the global state. -/
def zoneAlloc (s : State) (i : ZoneId) (order : Nat) (news : Nat → Bool) :
    State × Option PageBlock :=
  match (s.zone i).alloc i order news with
  | (z, none) => (s.setZone i z, none)
  | (z, some pblk) =>
    ({ s.setZone i z with
        pageBlockList := s.pageBlockList ++ [pblk]
        nrFreePages := u32Sub s.nrFreePages (2 ^ pblk.order) }, some pblk)

/-- The zones `zone_arr[index]`, `zone_arr[index - 1]`, … in the order the two
loops of `alloc_physical_order` visit them. -/
def ZoneId.downFrom : ZoneId → List ZoneId
  | .normal => [.normal, .dma32, .dma]
  | .dma32 => [.dma32, .dma]
  | .dma => [.dma]

/-- The zone the flags select. -/
def startZone (gfm : Nat) : ZoneId :=
  if gfm &&& GFM_ZONE_MASK = GFM_ZONE_DMA32 then .dma32
  else if gfm &&& GFM_ZONE_MASK = GFM_ZONE_DMA then .dma
  else .normal

/-- The second loop: try the zones one after the other. -/
def allocFrom (news : ZoneId → Nat → Bool) (order : Nat) :
    List ZoneId → State → State × Option PageBlock
  | [], s => (s, none)
  | i :: rest, s =>
    match zoneAlloc s i order (news i) with
    | (s', some pblk) => (s', some pblk)
    | (s', none) => allocFrom news order rest s'

/-- `alloc_physical_order`; `news` gives the outcomes of the metadata `new`s
of each zone's attempt.  The result is the base address. -/
def allocPhysicalOrder (s : State) (order gfm : Nat) (news : ZoneId → Nat → Bool) :
    State × Option Nat :=
  if BUDDY_MAX_ORDER < order then (s, none)
  else
    let zones := (startZone gfm).downFrom.dropWhile
      (fun i => decide ((s.zone i).nrFreePages < 2 ^ order))
    let r := allocFrom news order zones s
    (r.1, r.2.map PageBlock.base)

/-- `free_physical_order`. -/
def freePhysicalOrder (s : State) (p : Nat) : State :=
  if p = 0 then s
  else
    match s.pageBlockList.find? (fun b => b.base == p) with
    | none => s
    | some pblk =>
      { s.setZone pblk.zone ((s.zone pblk.zone).free pblk) with
        pageBlockList := s.pageBlockList.eraseP (fun b => b.base == p)
        nrFreePages := u32 (s.nrFreePages + 2 ^ pblk.order) }

/-- One call of the interface. -/
inductive Op where
  /-- A call of `alloc_physical_order`, with the outcomes of its metadata
  allocations. -/
  | alloc (order gfm : Nat) (news : ZoneId → Nat → Bool)
  /-- A call of `free_physical_order`. -/
  | free (p : Nat)

/-- The state after one call. -/
def step (s : State) : Op → State
  | .alloc order gfm news => (allocPhysicalOrder s order gfm news).1
  | .free p => freePhysicalOrder s p

/-- The state after a sequence of calls. -/
def run (s : State) (ops : List Op) : State := ops.foldl step s

end BigOS.Mm.Buddy
