/-
  BigOS.Mm.Buddy.Boot — how `init_buddy` fills the free lists.

  `handle_ards` trims one usable range to whole pages, cuts away the lowest
  2 MiB and the kernel image, splits it at the zone limits and carves each
  part into blocks whose metadata comes from the early arena.  The boot memory
  map hands it every usable region, less the framebuffer.

  A `kpanic` (exhausted arena, no usable region, no handoff) does not return:
  it is `none` here.
-/
import BigOS.Mm.Buddy.Model

namespace BigOS.Mm.Buddy

open BigOS.Lib.Carve

/-! ## §1. The early metadata arena. -/

/-- `EARLY_METADATA_PAGE_BLOCK_CAPACITY`. -/
def EARLY_METADATA_PAGE_BLOCK_CAPACITY : Nat := 128 * 128

/-- `EARLY_METADATA_LIST_NODE_CAPACITY`. -/
def EARLY_METADATA_LIST_NODE_CAPACITY : Nat := EARLY_METADATA_PAGE_BLOCK_CAPACITY

/-- `sizeof(PageBlock)` and `sizeof(PageBlockNode)`: four 8-byte words each,
already multiples of `EARLY_METADATA_ALIGNMENT`. -/
def METADATA_SIZE : Nat := 32

/-- `alignof(PageBlock)` and `alignof(PageBlockNode)`. -/
def METADATA_ALIGN : Nat := 8

/-- `EARLY_METADATA_ARENA_BYTES`. -/
def EARLY_METADATA_ARENA_BYTES : Nat :=
  EARLY_METADATA_PAGE_BLOCK_CAPACITY * METADATA_SIZE
    + EARLY_METADATA_LIST_NODE_CAPACITY * METADATA_SIZE

/-- `class EarlyMetadataArena`, without the high-water mark that only a panic
message reads. -/
structure EarlyMetadataArena where
  used : Nat
  pageBlocksUsed : Nat
  listNodesUsed : Nat
  isSealed : Bool
  deriving Repr, DecidableEq

/-- `EarlyMetadataArena::init`. -/
def EarlyMetadataArena.init : EarlyMetadataArena :=
  { used := 0, pageBlocksUsed := 0, listNodesUsed := 0, isSealed := false }

/-- `EarlyMetadataArena::seal`. -/
def EarlyMetadataArena.seal (a : EarlyMetadataArena) : EarlyMetadataArena :=
  { a with isSealed := true }

/-- `EarlyMetadataArena::alloc`; the storage is aligned to more than any
alignment asked for, so offsets are aligned when addresses are. -/
def EarlyMetadataArena.alloc (a : EarlyMetadataArena) (size alignment : Nat) :
    Option EarlyMetadataArena :=
  if a.isSealed || alignment == 0 then none
  else
    let newUsed := (a.used + alignment - 1) / alignment * alignment + size
    if EARLY_METADATA_ARENA_BYTES < newUsed then none else some { a with used := newUsed }

/-- `EarlyMetadataArena::alloc_page_block`. -/
def EarlyMetadataArena.allocPageBlock (a : EarlyMetadataArena) : Option EarlyMetadataArena :=
  if EARLY_METADATA_PAGE_BLOCK_CAPACITY ≤ a.pageBlocksUsed then none
  else
    (a.alloc METADATA_SIZE METADATA_ALIGN).map
      (fun a => { a with pageBlocksUsed := a.pageBlocksUsed + 1 })

/-- `EarlyMetadataArena::alloc_page_block_node`. -/
def EarlyMetadataArena.allocPageBlockNode (a : EarlyMetadataArena) : Option EarlyMetadataArena :=
  if EARLY_METADATA_LIST_NODE_CAPACITY ≤ a.listNodesUsed then none
  else
    (a.alloc METADATA_SIZE METADATA_ALIGN).map
      (fun a => { a with listNodesUsed := a.listNodesUsed + 1 })

/-! ## §2. `handle_ards`. -/

/-- The end of the lowest memory, which stays reserved. -/
def LOWEST_LIMIT : Nat := 0x200000

def KERNEL_BASE : Nat := 0x1000000

def DMA_LIMIT : Nat := 0x1000000

def DMA32_LIMIT : Nat := 0x100000000

/-- The value `init_buddy` gives `gKernelEndAddr`, from the 32-bit kernel
size. -/
def kernelEndAddr (kernelSize : Nat) : Nat :=
  (kernelSize + PAGE_SIZE - 1) / PAGE_SIZE * PAGE_SIZE + KERNEL_BASE

/-- Memory management during `init_buddy`: the globals and the arena. -/
structure BootState where
  arena : EarlyMetadataArena
  state : State

/-- A zone without blocks. -/
def Zone.empty : Zone := { freeArea := fun _ => [], nrPages := 0, nrFreePages := 0 }

/-- The globals before `init_buddy`. -/
def State.init : State :=
  { zone := fun _ => Zone.empty, pageBlockList := [], nrPages := 0, nrFreePages := 0 }

def BootState.init : BootState := { arena := EarlyMetadataArena.init, state := State.init }

/-- `Zone::__new_free` with the global counters. -/
def State.newFree (s : State) (pblk : PageBlock) : State :=
  { s.setZone pblk.zone ((s.zone pblk.zone).newFree pblk) with
    nrPages := u32 (s.nrPages + 2 ^ pblk.order)
    nrFreePages := u32 (s.nrFreePages + 2 ^ pblk.order) }

/-- The body of the carving loop: one block with metadata from the arena. -/
def insertChunk (zone : ZoneId) (s : BootState) (c : Chunk) : Option BootState := do
  let a ← s.arena.allocPageBlock
  let a ← a.allocPageBlockNode
  some { arena := a, state := s.state.newFree (chunkBlock zone 0 c) }

/-- The two loops at the end of `handle_ards`, over a range of one zone. -/
def insertRange (zone : ZoneId) (s : BootState) (base len : Nat) : Option BootState :=
  (carve PAGE_SIZE BUDDY_MAX_ORDER base len).foldlM (insertChunk zone) s

/-- The trimming at the start of `handle_ards`: base up, length down to whole
pages; nothing when the range ends before its first page boundary. -/
def alignArds (base len : Nat) : Option (Nat × Nat) :=
  if base % PAGE_SIZE ≠ 0 then
    let alignedBase := u64 (base / PAGE_SIZE * PAGE_SIZE + PAGE_SIZE)
    let dropSize := u64Sub alignedBase base
    if len ≤ dropSize then none
    else some (alignedBase, (len - dropSize) / PAGE_SIZE * PAGE_SIZE)
  else some (base, len / PAGE_SIZE * PAGE_SIZE)

theorem alignArds_le {base len b n : Nat} (h : alignArds base len = some (b, n)) : n ≤ len := by
  unfold alignArds at h
  have hfloor : ∀ m, m / PAGE_SIZE * PAGE_SIZE ≤ m := fun m => Nat.div_mul_le_self m _
  split at h
  · simp only at h
    split at h
    · cases h
    · obtain ⟨-, rfl⟩ := Prod.mk.inj (Option.some.inj h)
      exact Nat.le_trans (hfloor _) (Nat.sub_le _ _)
  · obtain ⟨-, rfl⟩ := Prod.mk.inj (Option.some.inj h)
    exact hfloor len

theorem u64_le (n : Nat) : u64 n ≤ n := Nat.mod_le _ _

theorem kernelBase_le_kernelEndAddr (kernelSize : Nat) :
    KERNEL_BASE ≤ kernelEndAddr kernelSize := Nat.le_add_left _ _

/-- `handle_ards`.  The calls on the part above a cut come before the blocks
of the part below it, as in the source; every call is on a shorter range. -/
def handleArds (kernelSize : Nat) (s : BootState) (base len : Nat) : Option BootState :=
  match _ : alignArds base len with
  | none => some s
  | some (b, n) =>
    let endAddr := u64 (b + n)
    let kernelEnd := kernelEndAddr kernelSize
    if endAddr ≤ b then some s
    else if b < LOWEST_LIMIT then
      if LOWEST_LIMIT < endAddr then
        handleArds kernelSize s LOWEST_LIMIT (endAddr - LOWEST_LIMIT)
      else some s
    else if b < KERNEL_BASE ∧ KERNEL_BASE < endAddr then do
      let s ← handleArds kernelSize s b (KERNEL_BASE - b)
      if kernelEnd < endAddr then handleArds kernelSize s kernelEnd (endAddr - kernelEnd)
      else some s
    else if KERNEL_BASE ≤ b ∧ b < kernelEnd ∧ kernelEnd < endAddr then
      handleArds kernelSize s kernelEnd (endAddr - kernelEnd)
    else if b < DMA_LIMIT then
      if DMA_LIMIT < endAddr then do
        let s ← handleArds kernelSize s DMA_LIMIT (endAddr - DMA_LIMIT)
        insertRange .dma s b (DMA_LIMIT - b)
      else insertRange .dma s b n
    else if b < DMA32_LIMIT then
      if DMA32_LIMIT < endAddr then do
        let s ← handleArds kernelSize s DMA32_LIMIT (endAddr - DMA32_LIMIT)
        insertRange .dma32 s b (DMA32_LIMIT - b)
      else insertRange .dma32 s b n
    else insertRange .normal s b n
termination_by len
decreasing_by
  all_goals
    have hle := alignArds_le ‹alignArds base len = some (b, n)›
    have hend := u64_le (b + n)
    first
      | omega
      | have hk := kernelBase_le_kernelEndAddr kernelSize
        omega

/-! ## §3. The boot memory map. -/

/-- `BIGOS_BOOT_MEMORY_TYPE_*`. -/
inductive BootMemoryType where
  | unknown
  | usable
  | reserved
  | acpiReclaim
  | acpiNvs
  | mmio
  | loader
  | kernel
  | badMemory
  | runtime
  deriving Repr, DecidableEq

/-- The fields of `struct BootMemoryRegion` that `init_buddy` reads. -/
structure BootMemoryRegion where
  physicalBase : Nat
  length : Nat
  normalizedType : BootMemoryType
  base_lt : physicalBase < 2 ^ 64
  length_lt : length < 2 ^ 64

/-- `BIGOS_BOOT_FRAMEBUFFER_PIXEL_FORMAT_*`; a value outside the list is
refused as `unknown` is. -/
inductive PixelFormat where
  | unknown
  | bgrx8888
  | rgbx8888
  | bitmask
  deriving Repr, DecidableEq

/-- `struct BootFramebufferMetadata`, the fields its validation reads. -/
structure BootFramebufferMetadata where
  physicalBase : Nat
  byteSize : Nat
  width : Nat
  height : Nat
  pixelsPerScanline : Nat
  bytesPerPixel : Nat
  bitsPerPixel : Nat
  pixelFormat : PixelFormat
  base_lt : physicalBase < 2 ^ 64
  size_lt : byteSize < 2 ^ 64

/-- `bigos_boot_range_overflows`. -/
def bootRangeOverflows (base size : Nat) : Bool :=
  size == 0 || u64 (base + size) < base

/-- `bigos_boot_framebuffer_metadata_valid`. -/
def framebufferMetadataValid (m : BootFramebufferMetadata) : Bool :=
  if m.width = 0 ∨ m.height = 0 ∨ m.pixelsPerScanline = 0 then false
  else if m.pixelsPerScanline < m.width then false
  else if m.bytesPerPixel = 0 ∨ m.bitsPerPixel = 0 then false
  else if m.pixelFormat = .unknown then false
  else if bootRangeOverflows m.physicalBase m.byteSize then false
  else
    let minSize := u64 (u64 (m.height * m.pixelsPerScanline) * m.bytesPerPixel)
    decide (m.height ≤ minSize) && decide (minSize ≤ m.byteSize)

/-- `bigos_boot_info_v2_framebuffer_metadata`: the payload of a valid section. -/
def framebufferMetadata (section_ : Option BootFramebufferMetadata) :
    Option BootFramebufferMetadata :=
  section_.filter framebufferMetadataValid

/-- `ranges_overlap`. -/
def rangesOverlap (leftBase leftLen rightBase rightLen : Nat) : Bool :=
  if leftLen = 0 ∨ rightLen = 0 then false
  else
    let leftEnd := u64 (leftBase + leftLen)
    let rightEnd := u64 (rightBase + rightLen)
    if leftEnd < leftBase ∨ rightEnd < rightBase then true
    else decide (leftBase < rightEnd) && decide (rightBase < leftEnd)

/-- The ranges `consume_region_excluding_framebuffer` hands to `handle_ards`,
in order.  Their number is what the function adds to `usable_regions`. -/
def regionRanges (framebuffer : Option BootFramebufferMetadata) (r : BootMemoryRegion) :
    List (Nat × Nat) :=
  if r.normalizedType ≠ .usable then []
  else
    match framebuffer with
    | none => [(r.physicalBase, r.length)]
    | some fb =>
      if !rangesOverlap r.physicalBase r.length fb.physicalBase fb.byteSize then
        [(r.physicalBase, r.length)]
      else
        let regionEnd := u64 (r.physicalBase + r.length)
        let fbEnd := u64 (fb.physicalBase + fb.byteSize)
        if regionEnd < r.physicalBase ∨ fbEnd < fb.physicalBase then []
        else
          (if r.physicalBase < fb.physicalBase then
              [(r.physicalBase, fb.physicalBase - r.physicalBase)] else [])
            ++ (if fbEnd < regionEnd then [(fbEnd, regionEnd - fbEnd)] else [])

/-- The ranges one after the other. -/
def consumeRanges (kernelSize : Nat) (ranges : List (Nat × Nat)) (s : BootState) :
    Option BootState :=
  ranges.foldlM (fun s r => handleArds kernelSize s r.1 r.2) s

/-- `normalize_ards_type`. -/
def normalizeArdsType : Nat → BootMemoryType
  | 1 => .usable
  | 2 => .reserved
  | 3 => .acpiReclaim
  | 4 => .acpiNvs
  | 5 => .badMemory
  | _ => .reserved

/-- An E820 entry. -/
structure ARDS where
  base : Nat
  len : Nat
  type : Nat
  base_lt : base < 2 ^ 64
  len_lt : len < 2 ^ 64

/-- The region `consume_v1_memory_map` makes of an entry. -/
def ARDS.toRegion (e : ARDS) : BootMemoryRegion :=
  { physicalBase := e.base, length := e.len, normalizedType := normalizeArdsType e.type,
    base_lt := e.base_lt, length_lt := e.len_lt }

/-- What `bigos_boot_resolve_handoff` finds.  A section that is missing or too
short is `none`; the memory map section is `none` also when its size is not a
multiple of the region size. -/
inductive BootHandoff where
  | v2 (kernelMemorySize : Option Nat) (memoryMap : Option (List BootMemoryRegion))
      (framebuffer : Option BootFramebufferMetadata)
  | v1 (kernelMemorySize : Nat) (e820 : List ARDS)
  | absent

/-- `gKernelSize`, when the handoff has one. -/
def BootHandoff.kernelSize : BootHandoff → Option Nat
  | .v2 size _ _ => size.map u32
  | .v1 size _ => some (u32 size)
  | .absent => none

/-- The regions the memory map loop walks. -/
def BootHandoff.regions : BootHandoff → List BootMemoryRegion
  | .v2 _ memoryMap _ => memoryMap.getD []
  | .v1 _ e820 => e820.map ARDS.toRegion
  | .absent => []

/-- The framebuffer `consume_v2_memory_map` excludes; the v1 path has none. -/
def BootHandoff.framebuffer : BootHandoff → Option BootFramebufferMetadata
  | .v2 _ _ section_ => framebufferMetadata section_
  | .v1 _ _ => none
  | .absent => none

/-- `seal_early_metadata_arena`. -/
def BootState.sealArena (s : BootState) : BootState := { s with arena := s.arena.seal }

/-- `init_buddy`. -/
def initBuddy (handoff : BootHandoff) : Option BootState := do
  let kernelSize ← handoff.kernelSize
  let ranges := handoff.regions.flatMap (regionRanges handoff.framebuffer)
  let s ← consumeRanges kernelSize ranges BootState.init
  if ranges.length = 0 then none else some s.sealArena

end BigOS.Mm.Buddy
