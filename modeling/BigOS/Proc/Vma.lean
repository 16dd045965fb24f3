/-
  BigOS.Proc.Vma — the virtual memory areas of a process.

  An area is a range of pages with permissions, a purpose and what backs it.  A process
  has sixteen slots for areas and a layout of regions, one for each purpose.  `unmap`
  and `protect` work on a staged copy of the areas: every area that the range meets is
  taken out, and what is left of it on either side is put back.

  Addresses are `uint64_t` values; sums that overflow are refused.  The regions of the
  dynamic linker are a build option; a layout without them has `dynamic` off.

  Main definitions:
    • `VmaEntry`, `VmaCollection`, `UserRuntimeLayout`,
    • `runtimeVmaAllowed` — the region and the properties that a purpose asks for,
    • `internalAddVma`, `internalRemoveVma`, `internalFindVma` — the slots,
    • `stageAnonymousUnmap`, `stageAnonymousProtect`, `stageDynLibProtect` — the staged
      copies.
-/
import BigOS.Mm.Paging.Model

namespace BigOS.Proc

open BigOS.Lib BigOS.Mm
open BigOS.Mm.Paging (PageAttr)

/-! ## §1. Addresses and ranges. -/

def USER_STACK_TOP : Nat := 0x800000
def USER_STACK_PAGES : Nat := 1
def USER_STACK_GUARD_PAGES : Nat := 1
def USER_STACK_GROWTH_PAGES : Nat := 4
def USER_HEAP_MAX_PAGES : Nat := 16
def USER_ANON_BASE : Nat := 0x1000000
def USER_ANON_MAX_PAGES : Nat := 32
def USER_FILEMAP_BASE : Nat := 0x4000000
def USER_FILEMAP_MAX_PAGES : Nat := 32
def USER_RUNTIME_RESERVED_BASE : Nat := USER_STACK_TOP
def USER_RUNTIME_RESERVED_END : Nat := USER_ANON_BASE
def USER_CODE_BASE : Nat := 0x400000
def USER_DYN_EXEC_BASE : Nat := USER_CODE_BASE
def USER_INTERP_BASE : Nat := 0x900000
def USER_INTERP_MAX_PAGES : Nat := 64
def USER_DYN_LIB_BASE : Nat := 0xa00000
def USER_DYN_LIB_MAX_PAGES : Nat := 256
def USER_LOW_HALF_LIMIT : Nat := 0x800000000000
def MAX_VMAS : Nat := 16

/-- `add_overflow`: the sum, unless it overflows. -/
def addOverflow (a b : Nat) : Option Nat := if a + b < 2 ^ 64 then some (a + b) else none

/-- `page_down`. -/
def pageDown (value : Nat) : Nat := value / PAGE_SIZE * PAGE_SIZE

/-- `page_up`. -/
def pageUp (value : Nat) : Option Nat := (addOverflow value (PAGE_SIZE - 1)).map pageDown

/-- `page_aligned`. -/
def pageAligned (value : Nat) : Bool := value % PAGE_SIZE == 0

/-- The pages of a range, as the loops over ranges visit them. -/
def pagesIn (start stop : Nat) : List Nat :=
  (List.range ((stop - start + (PAGE_SIZE - 1)) / PAGE_SIZE)).map (fun k => start + k * PAGE_SIZE)

structure UserRange where
  base : Nat
  len : Nat
  deriving Repr, DecidableEq

/-- `ranges_overlap`. -/
def rangesOverlap (aBase aLen bBase bLen : Nat) : Bool :=
  match addOverflow aBase aLen, addOverflow bBase bLen with
  | some aEnd, some bEnd => aBase < bEnd && bBase < aEnd
  | _, _ => true

/-- `user_range_valid`. -/
def userRangeValid (base len : Nat) : Bool :=
  len != 0 &&
    match addOverflow base len with
    | none => false
    | some stop => stop ≤ USER_LOW_HALF_LIMIT

/-- `vma_range_bounds`. -/
def vmaRangeBounds (start stop : Nat) : Bool :=
  start < stop && pageAligned start && pageAligned stop && stop ≤ USER_LOW_HALF_LIMIT

/-- `range_inside`. -/
def rangeInside (start stop : Nat) (range : UserRange) : Bool :=
  range.len != 0 &&
    match addOverflow range.base range.len with
    | none => false
    | some rangeEnd => range.base ≤ start && stop ≤ rangeEnd

/-- `range_inside_pair`. -/
def rangeInsidePair (start stop : Nat) (low high : UserRange) : Bool :=
  low.len != 0 && high.len != 0 &&
    match addOverflow high.base high.len with
    | none => false
    | some combinedEnd => low.base ≤ start && stop ≤ combinedEnd && low.base < high.base

/-! ## §2. Areas. -/

/-- The bits of `VmaPermission`. -/
def VmaPermission.None : UInt8 := 0
def VmaPermission.Read : UInt8 := 1
def VmaPermission.Write : UInt8 := 2
def VmaPermission.Execute : UInt8 := 4

/-- `permissions_include`. -/
def permissionsInclude (have_ need : UInt8) : Bool := have_ &&& need == need

/-- `permissions_wx`. -/
def permissionsWx (perm : UInt8) : Bool :=
  permissionsInclude perm VmaPermission.Write && permissionsInclude perm VmaPermission.Execute

/-- `permissions_supported`. -/
def permissionsSupported (perm : UInt8) : Bool :=
  perm &&& ~~~(VmaPermission.Read ||| VmaPermission.Write ||| VmaPermission.Execute) == 0 &&
    !permissionsWx perm

inductive VmaPurpose where
  | code
  | data
  | heap
  | anonymous
  | stack
  | stackGuard
  | fileMapped
  | dynInterp
  | dynLib
  deriving Repr, DecidableEq

inductive VmaBacking where
  | anonymous
  | elfSegment
  | guard
  | fileBacked
  deriving Repr, DecidableEq

inductive VmaGrowth where
  | none
  | up
  | down
  deriving Repr, DecidableEq

/-- An area in use; the file is named by a number. -/
structure VmaEntry where
  start : Nat
  stop : Nat
  materializedStart : Nat
  materializedEnd : Nat
  permissions : UInt8
  purpose : VmaPurpose
  backing : VmaBacking
  growth : VmaGrowth
  fileBacking : Option Nat
  fileOffset : Nat
  deriving Repr, DecidableEq

structure VmaCollection where
  entries : Nat → Option VmaEntry
  count : Nat
  heapBase : Nat
  heapBreak : Nat
  heapLimit : Nat
  anonNext : Nat
  filemapNext : Nat

structure UserRuntimeLayout where
  elfLoad : UserRange
  heap : UserRange
  anonymous : UserRange
  stackGuard : UserRange
  stackGrowth : UserRange
  stack : UserRange
  futureRuntime : UserRange
  fileMapped : UserRange
  dynInterp : UserRange
  dynLib : UserRange
  dynamic : Bool
  committed : Bool
  deriving Repr, DecidableEq

variable (layout : UserRuntimeLayout) (vmas : VmaCollection)

/-- The regions in the order in which `runtime_layout_valid` goes through them. -/
def UserRuntimeLayout.ranges : List UserRange :=
  [layout.elfLoad, layout.heap, layout.anonymous, layout.stackGuard, layout.stackGrowth,
    layout.stack, layout.futureRuntime, layout.fileMapped]

/-- The regions of the dynamic linker, which lie in the reserved gap. -/
def UserRuntimeLayout.dynRanges : List UserRange :=
  [layout.dynInterp, layout.dynLib]

/-- The checks of one region by itself. -/
def regionValid (range : UserRange) : Bool :=
  range.len != 0 && userRangeValid range.base range.len && pageAligned range.base &&
    pageAligned range.len

/-- `range_overlaps_user_range`. -/
def rangeOverlapsUserRange (start stop : Nat) (range : UserRange) : Bool :=
  range.len != 0 && rangesOverlap start (stop - start) range.base range.len

/-- The check of `runtime_layout_valid` for one region and the regions after it. -/
def rangesValid (valid : UserRange → Bool) : List UserRange → Bool
  | [] => true
  | range :: rest =>
    valid range &&
      rest.all (fun other =>
        !rangeOverlapsUserRange range.base (range.base + range.len) other) &&
      rangesValid valid rest

/-- `runtime_layout_valid`. -/
def runtimeLayoutValid : Bool :=
  rangesValid regionValid layout.ranges &&
    (!layout.dynamic || rangesValid (fun range => regionValid range &&
      rangeInside range.base (range.base + range.len) layout.futureRuntime) layout.dynRanges)

/-- `init_runtime_layout`. -/
def initRuntimeLayout (elfLow elfHigh heapBase : Nat) (dynamic : Bool) : Option UserRuntimeLayout :=
  if !pageAligned elfLow || !pageAligned elfHigh || elfHigh ≤ elfLow then none
  else
    match addOverflow heapBase (USER_HEAP_MAX_PAGES * PAGE_SIZE) with
    | none => none
    | some heapEnd =>
      let stackBase := USER_STACK_TOP - USER_STACK_PAGES * PAGE_SIZE
      let stackGrowthBase := stackBase - USER_STACK_GROWTH_PAGES * PAGE_SIZE
      let stackGuardBase := stackGrowthBase - USER_STACK_GUARD_PAGES * PAGE_SIZE
      if heapBase < elfHigh || stackGuardBase < heapEnd ||
          USER_RUNTIME_RESERVED_END < USER_RUNTIME_RESERVED_BASE then none
      else
        let layout : UserRuntimeLayout :=
          { elfLoad := ⟨elfLow, elfHigh - elfLow⟩
            heap := ⟨heapBase, heapEnd - heapBase⟩
            anonymous := ⟨USER_ANON_BASE, USER_ANON_MAX_PAGES * PAGE_SIZE⟩
            stackGuard := ⟨stackGuardBase, USER_STACK_GUARD_PAGES * PAGE_SIZE⟩
            stackGrowth := ⟨stackGrowthBase, USER_STACK_GROWTH_PAGES * PAGE_SIZE⟩
            stack := ⟨stackBase, USER_STACK_PAGES * PAGE_SIZE⟩
            futureRuntime := ⟨USER_RUNTIME_RESERVED_BASE,
              USER_RUNTIME_RESERVED_END - USER_RUNTIME_RESERVED_BASE⟩
            fileMapped := ⟨USER_FILEMAP_BASE, USER_FILEMAP_MAX_PAGES * PAGE_SIZE⟩
            dynInterp :=
              if dynamic then ⟨USER_INTERP_BASE, USER_INTERP_MAX_PAGES * PAGE_SIZE⟩ else ⟨0, 0⟩
            dynLib :=
              if dynamic then ⟨USER_DYN_LIB_BASE, USER_DYN_LIB_MAX_PAGES * PAGE_SIZE⟩
              else ⟨0, 0⟩
            dynamic := dynamic
            committed := true }
        if runtimeLayoutValid layout then some layout else none

/-- The file of an area that a file backs is there, at an offset of whole pages. -/
def fileBackingValid (entry : VmaEntry) : Bool :=
  entry.fileBacking.isSome && pageAligned entry.fileOffset

/-- What `Code` and `Data` ask for alike. -/
def elfVmaAllowed (entry : VmaEntry) : Bool :=
  rangeInside entry.start entry.stop layout.elfLoad && entry.growth == .none &&
    (entry.backing == .elfSegment || entry.backing == .fileBacked ||
      entry.backing == .anonymous) &&
    (entry.backing != .fileBacked || fileBackingValid entry)

/-- What `Heap` and `Stack` ask of the permissions. -/
def readWriteOnly (perm : UInt8) : Bool :=
  permissionsInclude perm VmaPermission.Read && permissionsInclude perm VmaPermission.Write &&
    !permissionsInclude perm VmaPermission.Execute

/-- `runtime_vma_allowed`. -/
def runtimeVmaAllowed (entry : VmaEntry) : Bool :=
  if !layout.committed || !vmaRangeBounds entry.start entry.stop then false
  else if entry.backing != .guard &&
      (entry.materializedStart < entry.start || entry.stop < entry.materializedStart ||
        entry.materializedEnd < entry.start || entry.stop < entry.materializedEnd) then false
  else
    match entry.purpose with
    | .code => elfVmaAllowed layout entry &&
        permissionsInclude entry.permissions VmaPermission.Execute &&
        !permissionsInclude entry.permissions VmaPermission.Write
    | .data => elfVmaAllowed layout entry &&
        !permissionsInclude entry.permissions VmaPermission.Execute
    | .heap => rangeInside entry.start entry.stop layout.heap && entry.backing == .anonymous &&
        entry.growth == .up && readWriteOnly entry.permissions
    | .anonymous => rangeInside entry.start entry.stop layout.anonymous &&
        entry.backing == .anonymous && entry.growth == .none
    | .stack => rangeInsidePair entry.start entry.stop layout.stackGrowth layout.stack &&
        entry.backing == .anonymous && entry.growth == .down && readWriteOnly entry.permissions
    | .stackGuard => rangeInside entry.start entry.stop layout.stackGuard &&
        entry.backing == .guard && entry.growth == .none &&
        entry.permissions == VmaPermission.None
    | .fileMapped => rangeInside entry.start entry.stop layout.fileMapped &&
        entry.backing == .fileBacked && entry.growth == .none && fileBackingValid entry &&
        permissionsInclude entry.permissions VmaPermission.Read &&
        !permissionsInclude entry.permissions VmaPermission.Write
    | .dynInterp => layout.dynamic && rangeInside entry.start entry.stop layout.dynInterp &&
        entry.backing == .elfSegment && entry.growth == .none
    | .dynLib => layout.dynamic && rangeInside entry.start entry.stop layout.dynLib &&
        entry.backing == .anonymous && entry.growth == .none

/-! ## §3. The slots. -/

/-- `internal_init_vmas`. -/
def internalInitVmas : VmaCollection where
  entries _ := none
  count := 0
  heapBase := 0
  heapBreak := 0
  heapLimit := 0
  anonNext := USER_ANON_BASE
  filemapNext := USER_FILEMAP_BASE

/-- The area of a slot meets the range. -/
def slotOverlaps (start stop i : Nat) : Bool :=
  match vmas.entries i with
  | none => false
  | some existing => start < existing.stop && existing.start < stop

/-- An area in use meets the range. -/
def vmasOverlap (start stop : Nat) : Bool :=
  (List.range MAX_VMAS).any (slotOverlaps vmas start stop)

/-- `internal_add_vma`. -/
def internalAddVma (entry : VmaEntry) : Option VmaCollection :=
  if !vmaRangeBounds entry.start entry.stop || permissionsWx entry.permissions ||
      MAX_VMAS ≤ vmas.count then none
  else if vmasOverlap vmas entry.start entry.stop then none
  else
    ((List.range MAX_VMAS).find? (fun i => (vmas.entries i).isNone)).map fun i =>
      { vmas with
        entries := Function.update vmas.entries i (some entry)
        count := vmas.count + 1 }

/-- `internal_add_process_vma`. -/
def internalAddProcessVma (entry : VmaEntry) : Option VmaCollection :=
  if runtimeVmaAllowed layout entry then internalAddVma vmas entry else none

/-- `internal_remove_vma`. -/
def internalRemoveVma (start stop : Nat) : Option VmaCollection :=
  ((List.range MAX_VMAS).find? (fun i =>
    match vmas.entries i with
    | none => false
    | some entry => entry.start == start && entry.stop == stop)).map fun i =>
      { vmas with
        entries := Function.update vmas.entries i none
        count := vmas.count - 1 }

/-- The area of a slot contains the address. -/
def slotContains (addr i : Nat) : Bool :=
  match vmas.entries i with
  | none => false
  | some entry => entry.start ≤ addr && addr < entry.stop

/-- `internal_find_vma`: the slot. -/
def internalFindVma (addr : Nat) : Option Nat :=
  if USER_LOW_HALF_LIMIT ≤ addr then none
  else (List.range MAX_VMAS).find? (slotContains vmas addr)

/-- The area that `internal_find_vma` points to. -/
def vmaAt (addr : Nat) : Option VmaEntry :=
  (internalFindVma vmas addr).bind vmas.entries

/-- The loop of `internal_vma_range_allowed`. -/
def rangeAllowedFrom (vmas : VmaCollection) (perm : UInt8) (stop : Nat) : Nat → Nat → Bool
  | 0, cursor => stop ≤ cursor
  | fuel + 1, cursor =>
    if stop ≤ cursor then true
    else
      match vmaAt vmas cursor with
      | none => false
      | some entry =>
        permissionsInclude entry.permissions perm && cursor < entry.stop &&
          rangeAllowedFrom vmas perm stop fuel (if entry.stop < stop then entry.stop else stop)

/-- `internal_vma_range_allowed`; every round gets on by a byte at least. -/
def internalVmaRangeAllowed (addr len : Nat) (perm : UInt8) : Bool :=
  len != 0 && userRangeValid addr len &&
    match addOverflow addr len with
    | none => false
    | some stop => rangeAllowedFrom vmas perm stop len addr

/-! ## §4. Attributes of a leaf. -/

/-- `internal_vma_attr_allowed`. -/
def internalVmaAttrAllowed (vma : VmaEntry) (attr : PageAttr) : Bool :=
  if !attr.present || !attr.user then false
  else if attr.writable && !permissionsInclude vma.permissions VmaPermission.Write then false
  else if !attr.noExecute && !permissionsInclude vma.permissions VmaPermission.Execute then false
  else true

/-- `anonymous_page_attr`. -/
def anonymousPageAttr (perm : UInt8) : PageAttr :=
  { PageAttr.zero with
    present := true
    user := true
    writable := permissionsInclude perm VmaPermission.Write
    noExecute := !permissionsInclude perm VmaPermission.Execute }

/-- `file_backed_page_attr`. -/
def fileBackedPageAttr (perm : UInt8) : PageAttr :=
  { PageAttr.zero with
    present := true
    user := true
    noExecute := !permissionsInclude perm VmaPermission.Execute }

/-- `cow_shared_attr`. -/
def cowSharedAttr (attr : PageAttr) : PageAttr := { attr with writable := false, cow := true }

/-! ## §5. Staged changes. -/

/-- `lifecycle_range_bounds`: the end of the range. -/
def lifecycleRangeBounds (addr len : Nat) : Option Nat :=
  if len == 0 || !pageAligned addr || !pageAligned len then none
  else
    match addOverflow addr len with
    | none => none
    | some stop => if USER_LOW_HALF_LIMIT < stop || stop ≤ addr then none else some stop

/-- `anonymous_lifecycle_vma_compatible`, of an area. -/
def anonymousLifecycleVmaCompatible (entry : VmaEntry) (perm : UInt8) : Bool :=
  entry.backing == .anonymous && entry.purpose == .anonymous && entry.growth == .none &&
    runtimeVmaAllowed layout entry && permissionsSupported perm

/-- `value` brought into the range. -/
def clamp (start stop value : Nat) : Nat :=
  let value := if value < start then start else value
  if stop < value then stop else value

/-- `clipped_vma`. -/
def clippedVma (entry : VmaEntry) (start stop : Nat) : VmaEntry :=
  let first := clamp start stop entry.materializedStart
  let last := clamp start stop entry.materializedEnd
  { entry with
    start := start
    stop := stop
    materializedStart := first
    materializedEnd := if last < first then first else last }

/-- A part of an area is put back if there is one. -/
def addPart (part : Option VmaEntry) : Option VmaCollection :=
  match part with
  | none => some vmas
  | some entry => internalAddVma vmas entry

/-- The loop that `stage_anonymous_unmap` and `stage_anonymous_protect` have in common:
the areas of the range are checked and taken out one after another, with what comes in
the place of the part inside the range. -/
def stageRange (vmas : VmaCollection) (compatible : VmaEntry → Bool)
    (inside : VmaEntry → Option VmaEntry) (stop : Nat) :
    Nat → Nat → VmaCollection → Option VmaCollection
  | 0, cursor, staged => if stop ≤ cursor then some staged else none
  | fuel + 1, cursor, staged =>
    if stop ≤ cursor then some staged
    else
      match vmaAt vmas cursor with
      | none => none
      | some entry =>
        if !compatible entry then none
        else do
          let cutEnd := if entry.stop < stop then entry.stop else stop
          let staged ← internalRemoveVma staged entry.start entry.stop
          let staged ← addPart staged
            (if entry.start < cursor then some (clippedVma entry entry.start cursor) else none)
          let staged ← addPart staged (inside (clippedVma entry cursor cutEnd))
          let staged ← addPart staged
            (if cutEnd < entry.stop then some (clippedVma entry cutEnd entry.stop) else none)
          stageRange vmas compatible inside stop fuel cutEnd staged

/-- `stage_anonymous_unmap`; every round gets on by a byte at least. -/
def stageAnonymousUnmap (addr stop : Nat) : Option VmaCollection :=
  stageRange vmas (fun entry => anonymousLifecycleVmaCompatible layout entry entry.permissions)
    (fun _ => none) stop (stop - addr) addr vmas

/-- `stage_anonymous_protect`. -/
def stageAnonymousProtect (addr stop : Nat) (perm : UInt8) : Option VmaCollection :=
  if !permissionsSupported perm then none
  else
    stageRange vmas (fun entry => anonymousLifecycleVmaCompatible layout entry perm)
      (fun part => some { part with permissions := perm }) stop (stop - addr) addr vmas

/-- What `stage_dyn_lib_protect` and `dyn_protect_current` ask of an area. -/
def dynLibCompatible (entry : VmaEntry) : Bool :=
  entry.purpose == .dynLib && entry.backing == .anonymous

/-- `stage_dyn_lib_protect`. -/
def stageDynLibProtect (addr stop : Nat) (perm : UInt8) : Option VmaCollection :=
  if !permissionsSupported perm then none
  else
    stageRange vmas dynLibCompatible (fun part => some { part with permissions := perm }) stop
      (stop - addr) addr vmas

end BigOS.Proc
