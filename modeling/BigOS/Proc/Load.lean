/-
  BigOS.Proc.Load — processes from ELF images, and runs of the whole system.

  A loader makes a root, registers the areas of the image, the heap and the stack, and
  maps the pages of the segments and the first page of the stack.  Whatever fails, the
  root is torn down again.  `exec` loads into a root of its own and then tears down the
  old one.

  Main definitions:
    • `createElfUserProcess`, `createDynUserProcess`, `execCurrentFromElfImage`,
    • `Op`, `step`, `runOps` — what processes and the kernel do to user memory.
-/
import BigOS.Proc.Elf
import BigOS.Proc.Memory

namespace BigOS.Proc

open BigOS.Mm Proc.System
open BigOS.Mm.Paging (PageAttr)

/-! ## §1. Building an address space. -/

/-- What the rest of the kernel decides while a process is created. -/
structure LoadEnv where
  kernelStackOk : Bool
  rootOk : Bool
  contextOk : Bool
  kernelStackMapped : Bool
  frame : Nat → Option Nat
  mapOk : Nat → Bool
  /-- The faults by which the pages of shared segments are read. -/
  fault : Nat → FaultEnv
  publishOk : Bool

variable (s : System) (root : Nat)

/-- `internal_add_process_vma`, on the process of a root. -/
def System.addProcessVma (entry : VmaEntry) : Option System :=
  match s.spaces root with
  | none => none
  | some space =>
    (internalAddProcessVma space.layout space.vmas entry).map fun vmas =>
      s.modifySpace root (fun space => { space with vmas := vmas })

/-- An area of a segment is added; one that a file backs takes a reference first. -/
def System.addSegmentVma (entry : VmaEntry) : Option System :=
  match entry.fileBacking with
  | none => s.addProcessVma root entry
  | some file => (s.retainFile file).addProcessVma root entry

/-- The loop over the areas of segments; what was added before a failure stays. -/
def System.addSegmentVmas (root : Nat) : List VmaEntry → System → Bool × System
  | [], s => (true, s)
  | entry :: rest, s =>
    match s.addSegmentVma root entry with
    | none => (false, s)
    | some s => addSegmentVmas root rest s

/-- A segment, the image it is copied from, and whether it is mapped from the file. -/
structure SegmentSource where
  segment : LoadSegment
  image : ElfImage
  shared : Bool

/-- The bytes of a page of a segment: the part in the file, and zeros. -/
def segmentPage (source : SegmentSource) (page : Nat) : Nat → UInt8 := fun i =>
  let segment := source.segment
  if segment.vaddr ≤ page + i ∧ page + i < segment.vaddr + segment.filesz then
    source.image.bytes (segment.offset + (page + i - segment.vaddr))
  else 0

/-- One page of a segment that is copied. -/
def System.mapSegmentPage (source : SegmentSource) (page : Nat)
    (env : LoadEnv) : Option UserElfLoadError × System :=
  match s.allocUserFrame (env.frame page) with
  | none => (some .outOfMemory, s)
  | some (phys, s) =>
    match s.fillFrame phys (segmentPage source page) with
    | none => (some .copyFailed, s.freeUserFrame phys)
    | some s =>
      match s.mapUserPageForProcess root page phys source.segment.attr (env.mapOk page) with
      | none => (some .mapFailed, s.freeUserFrame phys)
      | some s => (none, s)

/-- One page of a segment that is mapped from the file. -/
def System.mapSharedPage (root page : Nat) (env : LoadEnv) : Option UserElfLoadError × System :=
  match s.spaces root with
  | none => (some .mapFailed, s)
  | some space =>
    match (internalFindVma space.vmas page).bind fun i =>
        (space.vmas.entries i).map fun vma => (i, vma) with
    | none => (some .mapFailed, s)
    | some (i, vma) =>
      match s.materializeFileBackedPage root page i vma (env.fault page) with
      | (false, s) => (some .mapFailed, s)
      | (true, s) => (none, s)

/-- `map_segment`. -/
def System.mapSegment (root : Nat) (source : SegmentSource) (env : LoadEnv) :
    List Nat → System → Option UserElfLoadError × System
  | [], s => (none, s)
  | page :: rest, s =>
    match (if source.shared then s.mapSharedPage root page env
      else s.mapSegmentPage root source page env) with
    | (some error, s) => (some error, s)
    | (none, s) => mapSegment root source env rest s

/-- The loop over the segments. -/
def System.mapSegments (root : Nat) (env : LoadEnv) :
    List SegmentSource → System → Option UserElfLoadError × System
  | [], s => (none, s)
  | source :: rest, s =>
    let segment := source.segment
    match mapSegment root source env
        (pagesIn segment.mapBase (segment.mapBase + segment.mapLen)) s with
    | (some error, s) => (some error, s)
    | (none, s) => mapSegments root env rest s

def stackBase : Nat := USER_STACK_TOP - USER_STACK_PAGES * PAGE_SIZE

def stackGuardVma : VmaEntry where
  start := stackBase - (USER_STACK_GROWTH_PAGES + USER_STACK_GUARD_PAGES) * PAGE_SIZE
  stop := stackBase - USER_STACK_GROWTH_PAGES * PAGE_SIZE
  materializedStart := stackBase
  materializedEnd := stackBase
  permissions := VmaPermission.None
  purpose := .stackGuard
  backing := .guard
  growth := .none
  fileBacking := none
  fileOffset := 0

def stackVma : VmaEntry where
  start := stackBase - USER_STACK_GROWTH_PAGES * PAGE_SIZE
  stop := USER_STACK_TOP
  materializedStart := stackBase
  materializedEnd := USER_STACK_TOP
  permissions := VmaPermission.Read ||| VmaPermission.Write
  purpose := .stack
  backing := .anonymous
  growth := .down
  fileBacking := none
  fileOffset := 0

def heapVma (heapBase heapLimit : Nat) : VmaEntry where
  start := heapBase
  stop := heapLimit
  materializedStart := heapBase
  materializedEnd := heapBase
  permissions := VmaPermission.Read ||| VmaPermission.Write
  purpose := .heap
  backing := .anonymous
  growth := .up
  fileBacking := none
  fileOffset := 0

/-- The frame of the first stack page, once its areas are there. -/
def System.mapStackPage (phys : Option Nat)
    (stack : Option (Nat → UInt8)) (env : LoadEnv) : Option UserElfLoadError × System :=
  match phys with
  | none => (some .outOfMemory, s)
  | some phys =>
    match stack.bind (s.fillFrame phys) with
    | none => (some .copyFailed, s.freeUserFrame phys)
    | some s =>
      match s.mapUserPageForProcess root stackBase phys PageAttr.USER_DATA
          (env.mapOk stackBase) with
      | none => (some .mapFailed, s.freeUserFrame phys)
      | some s => (none, s)

/-- The stack: its frame is allocated before its areas are registered. -/
def System.mapInitialStack (stack : Option (Nat → UInt8))
    (env : LoadEnv) : Option UserElfLoadError × System :=
  let offer := s.allocUserFrame (env.frame stackBase)
  let phys := offer.map Prod.fst
  let s := (offer.map Prod.snd).getD s
  match s.addProcessVma root stackGuardVma with
  | none => (some .mapFailed, s)
  | some s =>
    match s.addProcessVma root stackVma with
    | none => (some .mapFailed, s)
    | some s => s.mapStackPage root phys stack env

/-- The heap of a process: its bounds and its area. -/
def System.addHeap (root heapBase : Nat) (layout : UserRuntimeLayout) : Bool × System :=
  let heapLimit := layout.heap.base + layout.heap.len
  let s := s.modifySpace root (fun space => { space with vmas := { space.vmas with
    heapBase := heapBase
    heapBreak := heapBase
    heapLimit := heapLimit } })
  match s.addProcessVma root (heapVma heapBase heapLimit) with
  | none => (false, s)
  | some s => (true, s)

/-- A root with a layout and no areas. -/
def System.newSpace (layout : UserRuntimeLayout) : System :=
  { s with spaces := Function.update s.spaces root (some ⟨layout, internalInitVmas,
      fun _ => none, true⟩) }

/-- The part that the two loaders have in common, from a fresh root to the last step that
can fail. -/
def System.buildSpace (root heapBase : Nat) (layout : UserRuntimeLayout)
    (areas : List VmaEntry) (sources : List SegmentSource) (stack : Option (Nat → UInt8))
    (env : LoadEnv) : Option UserElfLoadError × System :=
  match addSegmentVmas root areas (s.newSpace root layout) with
  | (false, s) => (some .mapFailed, s)
  | (true, s) =>
    match s.addHeap root heapBase layout with
    | (false, s) => (some .mapFailed, s)
    | (true, s) =>
      match mapSegments root env sources s with
      | (some error, s) => (some error, s)
      | (none, s) =>
        match s.mapInitialStack root stack env with
        | (some error, s) => (some error, s)
        | (none, s) => if env.publishOk then (none, s) else (some .outOfMemory, s)

/-- The exits of the two loaders before and after the root is there. -/
def System.loadSpace (root heapBase : Nat) (layout : Option UserRuntimeLayout)
    (areas : List VmaEntry) (sources : List SegmentSource) (stack : Option (Nat → UInt8))
    (env : LoadEnv) : Option UserElfLoadError × System :=
  if !env.kernelStackOk || !env.rootOk || !env.contextOk || (s.spaces root).isSome then
    (some .outOfMemory, s)
  else if !env.kernelStackMapped then (some .mapFailed, s)
  else
    match layout with
    | none => (some .addressOutOfRange, s)
    | some layout =>
      match s.buildSpace root heapBase layout areas sources stack env with
      | (some error, s) => (some error, s.destroySpace root)
      | (none, s) => (none, s)

/-! ## §2. The two loaders. -/

/-- The lowest and the highest address of the segments. -/
def imageLow (segments : List LoadSegment) : Nat :=
  segments.foldl (fun low segment => if segment.mapBase < low then segment.mapBase else low)
    (2 ^ 64 - 1)

def imageHigh (segments : List LoadSegment) : Nat :=
  segments.foldl (fun high segment =>
    if high < segment.mapBase + segment.mapLen then segment.mapBase + segment.mapLen else high) 0

/-- The area of a segment that is copied. -/
def copiedVma (purpose : VmaPurpose) (segment : LoadSegment) : VmaEntry where
  start := segment.mapBase
  stop := segment.mapBase + segment.mapLen
  materializedStart := segment.mapBase
  materializedEnd := segment.mapBase + segment.mapLen
  permissions := segmentPermissions segment.flags
  purpose := purpose
  backing := .elfSegment
  growth := .none
  fileBacking := none
  fileOffset := 0

/-- The purpose of a segment of the main image. -/
def segmentPurpose (segment : LoadSegment) : VmaPurpose :=
  if segment.flags.testBit PF_X then .code else .data

/-- The area of a segment of a static image. -/
def segmentVma (elfFile : Option Nat) (segment : LoadSegment) : VmaEntry :=
  if elfSegmentSharedReadonlyCompatible segment elfFile then
    { copiedVma (segmentPurpose segment) segment with
      materializedEnd := segment.mapBase
      backing := .fileBacked
      fileBacking := elfFile
      fileOffset := segment.offset }
  else copiedVma (segmentPurpose segment) segment

/-- `create_elf_user_process` of a static image: the entry point and the stack pointer. -/
def System.createElfUserProcess (image : ElfImage) (args : ExecArgs)
    (elfFile : Option Nat) (env : LoadEnv) : Except UserElfLoadError (Nat × Nat) × System :=
  match validateElf image with
  | .error error => (.error error, s)
  | .ok (segments, entry) =>
    let high := imageHigh segments
    let layout := (pageUp high).bind fun heapBase =>
      initRuntimeLayout (imageLow segments) high heapBase false
    let stack := copyExecArgsToStack stackBase args
    match s.loadSpace root ((pageUp high).getD 0) layout (segments.map (segmentVma elfFile))
        (segments.map fun segment =>
          ⟨segment, image, elfSegmentSharedReadonlyCompatible segment elfFile⟩)
        (stack.map Prod.fst) env with
    | (some error, s) => (.error error, s)
    | (none, s) => (.ok (entry, (stack.map Prod.snd).getD 0), s)

/-- The auxiliary vector, by `AT_PHDR`, `AT_PHENT`, `AT_PHNUM`, `AT_ENTRY`, `AT_BASE`,
`AT_PAGESZ` and `AT_NULL`. -/
def auxv (main interp : DynLoadInfo) : List (Nat × Nat) :=
  [(3, main.phdrAddr), (4, main.phentsize), (5, main.phnum), (9, main.entry),
    (7, interp.loadBase), (6, PAGE_SIZE), (0, 0)]

/-- `create_dyn_user_process`; the interpreter is what reading the file at the path gives. -/
def System.createDynUserProcess (image : ElfImage) (args : ExecArgs)
    (interp : List UInt8 → Except UserElfLoadError ElfImage) (env : LoadEnv) :
    Except UserElfLoadError (Nat × Nat) × System :=
  match validateDynImage image USER_DYN_EXEC_BASE true with
  | .error error => (.error error, s)
  | .ok (_, _, none) => (.error .unsupportedElf, s)
  | .ok (segments, info, some path) =>
    -- The path is absolute.
    if path.head? ≠ some 0x2f then (.error .unsupportedElf, s)
    else
      match interp path with
      | .error error => (.error error, s)
      | .ok interpImage =>
        match validateDynImage interpImage USER_INTERP_BASE false with
        | .error error => (.error error, s)
        | .ok (interpSegments, interpInfo, _) =>
          let high := imageHigh segments
          let layout := (pageUp high).bind fun heapBase =>
            initRuntimeLayout (imageLow segments) high heapBase true
          let stack := copyExecArgsAndAuxvToStack stackBase args (auxv info interpInfo)
          match s.loadSpace root ((pageUp high).getD 0) layout
              (segments.map (fun segment => copiedVma (segmentPurpose segment) segment) ++
                interpSegments.map (copiedVma .dynInterp))
              (segments.map (⟨·, image, false⟩) ++ interpSegments.map (⟨·, interpImage, false⟩))
              (stack.map Prod.fst) env with
          | (some error, s) => (.error error, s)
          | (none, s) => (.ok (interpInfo.entry, (stack.map Prod.snd).getD 0), s)

/-- `image_is_dyn_exec`. -/
def imageIsDynExec (image : ElfImage) : Bool :=
  ELF_HEADER_SIZE ≤ image.len && image.header.magic == ELF_MAGIC &&
    image.header.type == ELF_TYPE_DYN

/-- What a process is created from; `dynamicLink` is the build option. -/
structure Program where
  image : ElfImage
  args : ExecArgs
  elfFile : Option Nat
  dynamicLink : Bool
  interp : List UInt8 → Except UserElfLoadError ElfImage

/-- `create_elf_user_process`. -/
def System.createProcess (program : Program) (env : LoadEnv) :
    Except UserElfLoadError (Nat × Nat) × System :=
  if program.dynamicLink && imageIsDynExec program.image then
    s.createDynUserProcess root program.image program.args program.interp env
  else s.createElfUserProcess root program.image program.args program.elfFile env

/-- What the rest of the kernel decides in an `exec`. -/
structure ExecEnv where
  rootActive : Bool
  objectOk : Bool
  load : LoadEnv

/-- `exec_current_from_elf_image`: the process goes on in the root `new`. -/
def System.execCurrentFromElfImage (root new : Nat) (program : Program)
    (env : ExecEnv) : Except UserElfLoadError (Nat × Nat) × System :=
  match s.spaces root with
  | none => (.error .invalidArgument, s)
  | some space =>
    if !space.running then (.error .invalidArgument, s)
    else if env.rootActive then (.error .mapFailed, s)
    else if !env.objectOk then (.error .outOfMemory, s)
    else
      match s.createProcess new program env.load with
      | (.error error, s) => (.error error, s)
      | (.ok result, s) => (.ok result, s.destroySpace root)

/-! ## §3. Runs. -/

/-- What can happen to user memory. -/
inductive Op where
  | create (root : Nat) (program : Program) (env : LoadEnv)
  | exec (root new : Nat) (program : Program) (env : ExecEnv)
  | fault (root addr code : Nat) (env : FaultEnv)
  | store (root addr : Nat) (byte : UInt8)
  | brk (root newBreak : Nat) (canBlock : Bool)
  | mapAnonymous (root len permissions flags : Nat) (canBlock : Bool)
  | unmapAnonymous (root addr len : Nat) (canBlock : Bool)
  | protectAnonymous (root addr len permissions : Nat) (canBlock : Bool)
  | mapFile (root : Nat) (file : Option OpenFile) (offset len permissions flags : Nat)
      (canBlock : Bool)
  | dynMap (root base len permissions : Nat) (canBlock : Bool)
  | dynProtect (root base len permissions : Nat) (canBlock : Bool)
  | fork (parent child : Nat) (env : ForkEnv)
  | exit (root : Nat)
  | reap (root : Nat)

/-- What an operation leaves behind. -/
def System.step : Op → System
  | .create root program env => (s.createProcess root program env).2
  | .exec root new program env => (s.execCurrentFromElfImage root new program env).2
  | .fault root addr code env => (s.tryHandleUserPageFault root addr code env).2
  | .store root addr byte => s.store root addr byte
  | .brk root newBreak canBlock => (s.brkCurrent root newBreak canBlock).2
  | .mapAnonymous root len permissions flags canBlock =>
    (s.mapAnonymousCurrent root len permissions flags canBlock).2
  | .unmapAnonymous root addr len canBlock => (s.unmapAnonymousCurrent root addr len canBlock).2
  | .protectAnonymous root addr len permissions canBlock =>
    (s.protectAnonymousCurrent root addr len permissions canBlock).2
  | .mapFile root file offset len permissions flags canBlock =>
    (s.mapFileCurrent root file offset len permissions flags canBlock).2
  | .dynMap root base len permissions canBlock =>
    (s.dynMapCurrent root base len permissions canBlock).2
  | .dynProtect root base len permissions canBlock =>
    (s.dynProtectCurrent root base len permissions canBlock).2
  | .fork parent child env => (s.forkCurrent parent child env).2
  | .exit root => s.exitCurrent root
  | .reap root => s.reap root

def System.runOps (ops : List Op) : System := ops.foldl step s

/-- No process has been made; frames that the kernel keeps are those never offered. -/
structure System.Booted (s : System) : Prop where
  spaces : ∀ root, s.spaces root = none
  shared : ∀ k, s.shared k = none
  refcount : ∀ f, s.refcount f = 0

end BigOS.Proc
