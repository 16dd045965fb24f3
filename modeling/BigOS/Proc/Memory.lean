/-
  BigOS.Proc.Memory — the user memory of all processes.

  An address space has the areas of a process and the leaves of its page tables, by the
  address of the page; how the tables hold the leaves is in `Mm.Paging`.  Spaces are
  named by their root.  A frame may be mapped in several roots: the table of reference
  counts has zero for a lone owner, and pages of files that are only read are kept in a
  directory that is an owner of its own.  Areas and directory entries hold references to
  the open file they read from.

  What the rest of the kernel decides is an argument of each call: whether it may block,
  the frame that the page allocator returns, whether the tables of a mapping can be
  allocated, what a file holds.  The allocator returns frames that are not allocated.

  Main definitions:
    • `System`, `AddressSpace`, `Leaf`,
    • `frameRefInc`, `frameRefDecAndMaybeFree` — reference counts,
    • `tryHandleUserPageFault`, `cowSplitCurrent` — page faults,
    • `brkCurrent`, `mapAnonymousCurrent`, `unmapAnonymousCurrent`,
      `protectAnonymousCurrent`, `mapFileCurrent`, `dynMapCurrent`, `dynProtectCurrent` —
      calls on areas,
    • `forkCurrent`, `teardownProcessAddressSpace` — whole address spaces.
-/
import BigOS.Proc.Vma

namespace BigOS.Proc

open BigOS.Mm Function
open BigOS.Mm.Paging (PageAttr)

/-! ## §1. The state. -/

/-- A present descriptor of a page table. -/
structure Leaf where
  frame : Nat
  attr : PageAttr
  deriving Repr, DecidableEq

structure AddressSpace where
  layout : UserRuntimeLayout
  vmas : VmaCollection
  leaves : Nat → Option Leaf
  /-- The process runs; its space outlives it until it is reaped. -/
  running : Bool

/-- `SharedReadonlyKey`, with the identity of the file as a number. -/
structure SharedReadonlyKey where
  identity : Nat
  fileOffset : Nat
  user : Bool
  noExecute : Bool
  deriving Repr, DecidableEq

/-- A used slot of `g_shared_readonly_pages`. -/
structure SharedReadonlyPage where
  key : SharedReadonlyKey
  framePhys : Nat
  pteRefs : Nat
  backing : Nat
  deriving Repr, DecidableEq

structure System where
  spaces : Nat → Option AddressSpace
  shared : Nat → Option SharedReadonlyPage
  /-- `gFrameRefcount`; zero where it has no slot. -/
  refcount : Nat → Nat
  allocated : Nat → Bool
  memory : Nat → Nat → UInt8
  /-- The frames with a slot in `gFrameRefcount`. -/
  tracked : Nat → Bool
  /-- The frames that the direct map covers. -/
  directMapped : Nat → Bool
  /-- `ref_count` of the open files; a file without references is closed. -/
  fileRefs : Nat → Nat

inductive Errno where
  | ewouldblock
  | einval
  | efault
  | ebadf
  | eacces
  | enomem
  | eagain
  | enoexec
  | e2big
  deriving Repr, DecidableEq

def MAX_SHARED_READONLY_PAGES : Nat := 64
def FRAME_REFCOUNT_MAX : Nat := 0xffff

variable (s : System)

/-! ## §2. Frames. -/

namespace System

/-- `alloc_user_frame`, given what the page allocator would return. -/
def allocUserFrame (offer : Option Nat) : Option (Nat × System) :=
  match offer with
  | none => none
  | some f =>
    if f = 0 ∨ f % PAGE_SIZE ≠ 0 ∨ s.allocated f = true then none
    else some (f, { s with allocated := update s.allocated f true })

/-- `free_user_frame`. -/
def freeUserFrame (f : Nat) : System :=
  { s with allocated := update s.allocated f false }

/-- The frame is filled through the direct map. -/
def fillFrame (f : Nat) (bytes : Nat → UInt8) : Option System :=
  if s.directMapped f then some { s with memory := update s.memory f bytes } else none

/-- `frame_ref_inc`. -/
def frameRefInc (f : Nat) : Option System :=
  if !s.tracked f then none
  else if s.refcount f = 0 then some { s with refcount := update s.refcount f 2 }
  else if s.refcount f = FRAME_REFCOUNT_MAX then none
  else some { s with refcount := update s.refcount f (s.refcount f + 1) }

/-- `frame_ref_dec_and_maybe_free`. -/
def frameRefDecAndMaybeFree (f : Nat) : System :=
  if !s.tracked f || s.refcount f == 0 then s.freeUserFrame f
  else
    let n := s.refcount f - 1
    { s with refcount := update s.refcount f (if n = 1 then 0 else n) }

/-- `frame_ref_is_shared`. -/
def frameRefIsShared (f : Nat) : Bool := s.tracked f && 2 ≤ s.refcount f

/-- `vfs::retain`. -/
def retainFile (file : Nat) : System :=
  { s with fileRefs := update s.fileRefs file (s.fileRefs file + 1) }

/-- `vfs::release`: the last reference closes the file. -/
def releaseFile (file : Nat) : System :=
  { s with fileRefs := update s.fileRefs file (s.fileRefs file - 1) }

/-! ## §3. Leaves. -/

/-- The leaf of a page in a root. -/
def leafAt (root page : Nat) : Option Leaf :=
  (s.spaces root).bind (fun space => space.leaves page)

/-- A space is changed. -/
def modifySpace (root : Nat) (f : AddressSpace → AddressSpace) : System :=
  { s with spaces := update s.spaces root ((s.spaces root).map f) }

/-- The leaf of a page is written. -/
def setLeaf (root page : Nat) (leaf : Option Leaf) : System :=
  s.modifySpace root (fun space =>
    { space with leaves := update space.leaves page leaf })

/-- `read_user_leaf_in_root`. -/
def readUserLeafInRoot (root page : Nat) : Option Leaf :=
  if !pageAligned page then none
  else (s.leafAt root page).filter (fun leaf => leaf.attr.present && leaf.attr.user)

/-- `map_page_in_root`; `ok` if the tables on the way are there or can be made. -/
def mapPageInRoot (root page phys : Nat) (attr : PageAttr) (ok : Bool) : Option System :=
  if !pageAligned page || !pageAligned phys || !ok || (s.leafAt root page).isSome then none
  else some (s.setLeaf root page (some ⟨phys, attr⟩))

/-- `remap_user_page_in_root`. -/
def remapUserPageInRoot (root page phys : Nat) (attr : PageAttr) : Option System :=
  if !pageAligned phys || (s.readUserLeafInRoot root page).isNone then none
  else some (s.setLeaf root page (some ⟨phys, attr⟩))

/-- `unmap_user_page_in_root`: the frame that was mapped. -/
def unmapUserPageInRoot (root page : Nat) : Option (Nat × System) :=
  (s.readUserLeafInRoot root page).map fun leaf => (leaf.frame, s.setLeaf root page none)

/-- `map_user_page_for_process`, into its own root only. -/
def mapUserPageForProcess (root page phys : Nat) (attr : PageAttr) (ok : Bool) : Option System :=
  match s.spaces root with
  | none => none
  | some space =>
    if !pageAligned page || !pageAligned phys then none
    else if !internalVmaRangeAllowed space.vmas page PAGE_SIZE VmaPermission.Read then none
    else
      match vmaAt space.vmas page with
      | none => none
      | some vma =>
        if !internalVmaAttrAllowed vma attr || !runtimeVmaAllowed space.layout vma then none
        else s.mapPageInRoot root page phys attr ok

/-! ## §4. Shared pages of files. -/

/-- The slots of `g_shared_readonly_pages` with the property. -/
def findShared (p : SharedReadonlyPage → Bool) : Option Nat :=
  (List.range MAX_SHARED_READONLY_PAGES).find? (fun k => (s.shared k).any p)

/-- `shared_readonly_find`. -/
def sharedReadonlyFind (key : SharedReadonlyKey) : Option Nat :=
  s.findShared (fun entry => entry.key == key)

/-- `shared_readonly_free_slot`. -/
def sharedReadonlyFreeSlot : Option Nat :=
  (List.range MAX_SHARED_READONLY_PAGES).find? (fun k => (s.shared k).isNone)

def setShared (k : Nat) (entry : Option SharedReadonlyPage) : System :=
  { s with shared := update s.shared k entry }

/-- `shared_readonly_retain_mapping` of a used slot. -/
def sharedReadonlyRetainMapping (k : Nat) (entry : SharedReadonlyPage) : Option System :=
  (s.frameRefInc entry.framePhys).map fun s =>
    s.setShared k (some { entry with pteRefs := entry.pteRefs + 1 })

/-- The slot of a frame, with what it holds. -/
def sharedOfFrame (phys : Nat) : Option (Nat × SharedReadonlyPage) :=
  (s.findShared (fun entry => entry.framePhys == phys)).bind fun k =>
    (s.shared k).map fun entry => (k, entry)

/-- `shared_readonly_retain_mapping_by_frame`. -/
def sharedReadonlyRetainMappingByFrame (phys : Nat) : Option System :=
  match s.sharedOfFrame phys with
  | some (k, entry) => s.sharedReadonlyRetainMapping k entry
  | none => s.frameRefInc phys

/-- `shared_readonly_drop_mapping`. -/
def sharedReadonlyDropMapping (phys : Nat) : System :=
  match s.sharedOfFrame phys with
  | none => s.frameRefDecAndMaybeFree phys
  | some (k, entry) =>
    let entry := { entry with pteRefs := entry.pteRefs - 1 }
    let s := (s.setShared k (some entry)).frameRefDecAndMaybeFree phys
    if entry.pteRefs = 0 then
      ((s.setShared k none).frameRefDecAndMaybeFree entry.framePhys).releaseFile entry.backing
    else s

/-- `shared_readonly_publish_new`: the slot. -/
def sharedReadonlyPublishNew (key : SharedReadonlyKey)
    (phys backing : Nat) : Option (Nat × System) :=
  if phys = 0 ∨ (s.sharedReadonlyFind key).isSome then none
  else s.sharedReadonlyFreeSlot.map fun k =>
    (k, (s.retainFile backing).setShared k (some ⟨key, phys, 0, backing⟩))

/-- `shared_readonly_cancel_unmapped` of an entry that no leaf refers to. -/
def sharedReadonlyCancelUnmapped (k phys backing : Nat) : System :=
  ((s.setShared k none).frameRefDecAndMaybeFree phys).releaseFile backing

end System

/-! ## §5. Page faults. -/

/-- What the rest of the kernel decides in a page fault. -/
structure FaultEnv where
  canAllocate : Bool
  canBlock : Bool
  frame : Option Nat
  mapOk : Bool
  /-- The identity of the file of the area. -/
  identity : Option Nat
  /-- The bytes of the file at the page, zeros beyond its end, if they can be read. -/
  content : Option (Nat → UInt8)

/-- `materialized_end` of an area follows the highest page. -/
def raiseMaterializedEnd (page : Nat) (vma : VmaEntry) : VmaEntry :=
  if vma.materializedEnd < page + PAGE_SIZE then { vma with materializedEnd := page + PAGE_SIZE }
  else vma

/-- The area in a slot is changed. -/
def System.modifyVma (root i : Nat) (f : VmaEntry → VmaEntry) : System :=
  s.modifySpace root (fun space =>
    { space with vmas := { space.vmas with
        entries := update space.vmas.entries i ((space.vmas.entries i).map f) } })

/-- `shared_readonly_key_for_vma`. -/
def sharedReadonlyKeyForVma (vma : VmaEntry) (fileOffset : Nat) (attr : PageAttr)
    (identity : Option Nat) : Option SharedReadonlyKey :=
  if vma.fileBacking.isNone || permissionsInclude vma.permissions VmaPermission.Write ||
      attr.writable || !pageAligned fileOffset then none
  else identity.map fun identity => ⟨identity, fileOffset, attr.user, attr.noExecute⟩

/-- The path of `materialize_file_backed_page` on which the directory has the page. -/
def System.mapFoundPage (root page i k : Nat) (entry : SharedReadonlyPage)
    (attr : PageAttr) (env : FaultEnv) : Bool × System :=
  match s.sharedReadonlyRetainMapping k entry with
  | none => (false, s)
  | some retained =>
    match retained.mapUserPageForProcess root page entry.framePhys attr env.mapOk with
    | none => (false, retained.sharedReadonlyDropMapping entry.framePhys)
    | some s => (true, s.modifyVma root i (raiseMaterializedEnd page))

/-- The path of `materialize_file_backed_page` on which the page is read. -/
def System.mapNewPage (root page i : Nat) (key : SharedReadonlyKey)
    (attr : PageAttr) (backing : Nat) (env : FaultEnv) : Bool × System :=
  match s.allocUserFrame env.frame with
  | none => (false, s)
  | some (phys, s) =>
    match env.content.bind (s.fillFrame phys) with
    | none => (false, s.freeUserFrame phys)
    | some s =>
      match s.sharedReadonlyPublishNew key phys backing with
      | none => (false, s.freeUserFrame phys)
      | some (k, published) =>
        match published.sharedReadonlyRetainMapping k ⟨key, phys, 0, backing⟩ with
        | none => (false, published.sharedReadonlyCancelUnmapped k phys backing)
        | some retained =>
          match retained.mapUserPageForProcess root page phys attr env.mapOk with
          | none => (false, retained.sharedReadonlyDropMapping phys)
          | some s => (true, s.modifyVma root i (raiseMaterializedEnd page))

/-- `materialize_file_backed_page`, of the area in the slot `i`. -/
def System.materializeFileBackedPage (root page i : Nat) (vma : VmaEntry)
    (env : FaultEnv) : Bool × System :=
  match vma.fileBacking with
  | none => (false, s)
  | some backing =>
    if vma.backing != .fileBacked || !env.canBlock then (false, s)
    else
      match addOverflow vma.fileOffset (page - vma.start) with
      | none => (false, s)
      | some fileOffset =>
        let attr := fileBackedPageAttr vma.permissions
        match sharedReadonlyKeyForVma vma fileOffset attr env.identity with
        | none => (false, s)
        | some key =>
          match (s.sharedReadonlyFind key).bind fun k =>
              (s.shared k).map fun entry => (k, entry) with
          | some (k, entry) => s.mapFoundPage root page i k entry attr env
          | none => s.mapNewPage root page i key attr backing env

/-- `cow_split_current`. -/
def System.cowSplitCurrent (root page : Nat) (space : AddressSpace) (vma : VmaEntry)
    (env : FaultEnv) : Bool × System :=
  match s.readUserLeafInRoot root page with
  | none => (false, s)
  | some old =>
    let writableAttr := { old.attr with cow := false, writable := true }
    if !runtimeVmaAllowed space.layout vma || !internalVmaAttrAllowed vma writableAttr then
      (false, s)
    else if !s.frameRefIsShared old.frame then
      match s.remapUserPageInRoot root page old.frame writableAttr with
      | none => (false, s)
      | some s => (true, s)
    else
      match s.allocUserFrame env.frame with
      | none => (false, s)
      | some (phys, s) =>
        if !s.directMapped old.frame then (false, s.freeUserFrame phys)
        else
          match s.fillFrame phys (s.memory old.frame) with
          | none => (false, s.freeUserFrame phys)
          | some s =>
            match s.remapUserPageInRoot root page phys writableAttr with
            | none => (false, s.freeUserFrame phys)
            | some s => (true, s.frameRefDecAndMaybeFree old.frame)

/-- The range gate of a page that is not present. -/
def faultRangeAllowed (vmas : VmaCollection) (vma : VmaEntry) (page : Nat) : Bool :=
  if vma.growth == .down then vma.start ≤ page && page < vma.materializedStart
  else
    match (if vma.purpose == .heap then pageUp vmas.heapBreak else some vma.stop) with
    | none => false
    | some registeredEnd => vma.start ≤ page && page < registeredEnd

/-- The area after a page of it was materialized. -/
def materialized (page : Nat) (vma : VmaEntry) : VmaEntry :=
  if vma.growth == .down then { vma with materializedStart := page }
  else raiseMaterializedEnd page vma

/-- The end of `try_handle_user_page_fault`: a page of zeros. -/
def System.materializeAnonymousPage (root page i : Nat) (vma : VmaEntry)
    (env : FaultEnv) : Bool × System :=
  match s.allocUserFrame env.frame with
  | none => (false, s)
  | some (phys, s) =>
    match s.fillFrame phys (fun _ => 0) with
    | none => (false, s.freeUserFrame phys)
    | some s =>
      match s.mapUserPageForProcess root page phys (anonymousPageAttr vma.permissions)
          env.mapOk with
      | none => (false, s.freeUserFrame phys)
      | some s => (true, s.modifyVma root i (materialized page))

/-- The bits of an error code. -/
def FAULT_PRESENT : Nat := 0
def FAULT_WRITE : Nat := 1
def FAULT_FETCH : Nat := 4

/-- `try_handle_user_page_fault`. -/
def System.tryHandleUserPageFault (root addr code : Nat) (env : FaultEnv) : Bool × System :=
  match s.spaces root with
  | none => (false, s)
  | some space =>
    if !space.running || !env.canAllocate then (false, s)
    else
      let page := pageDown addr
      match internalFindVma space.vmas page with
      | none => (false, s)
      | some i =>
        match space.vmas.entries i with
        | none => (false, s)
        | some vma =>
          if code.testBit FAULT_PRESENT then
            -- Only a write to a page that is marked for it is split.
            if !code.testBit FAULT_WRITE then (false, s)
            else if vma.backing != .anonymous || !runtimeVmaAllowed space.layout vma ||
                !permissionsInclude vma.permissions VmaPermission.Write then (false, s)
            else
              match s.readUserLeafInRoot root page with
              | none => (false, s)
              | some leaf =>
                if !leaf.attr.cow || leaf.attr.writable then (false, s)
                else s.cowSplitCurrent root page space vma env
          else if !runtimeVmaAllowed space.layout vma then (false, s)
          else if vma.backing == .fileBacked then
            if code.testBit FAULT_WRITE then (false, s)
            else if code.testBit FAULT_FETCH &&
                !permissionsInclude vma.permissions VmaPermission.Execute then (false, s)
            else if page < vma.start || vma.stop ≤ page then (false, s)
            else s.materializeFileBackedPage root page i vma env
          else if vma.backing != .anonymous then (false, s)
          else if code.testBit FAULT_WRITE &&
              !permissionsInclude vma.permissions VmaPermission.Write then (false, s)
          else if code.testBit FAULT_FETCH &&
              !permissionsInclude vma.permissions VmaPermission.Execute then (false, s)
          else if !faultRangeAllowed space.vmas vma page then (false, s)
          else s.materializeAnonymousPage root page i vma env

/-- A store of a process: it takes effect where the leaf permits it. -/
def System.store (root addr : Nat) (byte : UInt8) : System :=
  match s.spaces root with
  | none => s
  | some space =>
    match space.leaves (pageDown addr) with
    | none => s
    | some leaf =>
      if space.running && leaf.attr.present && leaf.attr.user && leaf.attr.writable then
        let bytes := update (s.memory leaf.frame) (addr % PAGE_SIZE) byte
        { s with memory := update s.memory leaf.frame bytes }
      else s

/-! ## §6. Calls on areas. -/

/-- `unmap_and_free_user_page`. -/
def System.unmapAndFreeUserPage (root page : Nat) : System :=
  match s.unmapUserPageInRoot root page with
  | none => s
  | some (phys, s) => s.frameRefDecAndMaybeFree phys

/-- The loop of `unmap_present_pages_in_range`, which fails at no page, and of the other
paths that unmap pages. -/
def System.unmapPages (root : Nat) (pages : List Nat) : System :=
  pages.foldl (fun s page => s.unmapAndFreeUserPage root page) s

/-- `brk_current`. -/
def System.brkCurrent (root newBreak : Nat) (canBlock : Bool) : Except Errno Nat × System :=
  match s.spaces root with
  | none => (.error .ewouldblock, s)
  | some space =>
    if !space.running || !canBlock then (.error .ewouldblock, s)
    else if newBreak = 0 then (.ok space.vmas.heapBreak, s)
    else if newBreak < space.vmas.heapBase || space.vmas.heapLimit < newBreak then
      (.error .einval, s)
    else
      match internalFindVma space.vmas space.vmas.heapBase with
      | none => (.error .efault, s)
      | some i =>
        match space.vmas.entries i with
        | none => (.error .efault, s)
        | some heap =>
          if heap.purpose != .heap || !runtimeVmaAllowed space.layout heap then
            (.error .efault, s)
          else
            match pageUp space.vmas.heapBreak, pageUp newBreak with
            | some oldPageEnd, some newPageEnd =>
              let s :=
                if newPageEnd < oldPageEnd then
                  let unmapTop :=
                    if heap.materializedEnd < oldPageEnd then heap.materializedEnd
                    else oldPageEnd
                  (s.unmapPages root (pagesIn newPageEnd unmapTop)).modifyVma root i
                    (fun heap => if newPageEnd < heap.materializedEnd then
                      { heap with materializedEnd := newPageEnd } else heap)
                else s
              (.ok newBreak, s.modifySpace root (fun space =>
                { space with vmas := { space.vmas with heapBreak := newBreak } }))
            | _, _ => (.error .einval, s)

/-- The loop of `map_anonymous_current` and `map_file_current` that looks for a range
that no area meets. -/
def searchBase (vmas : VmaCollection) (len limit : Nat) : Nat → Nat → Nat
  | 0, base => base
  | fuel + 1, base =>
    match addOverflow base len with
    | none => base
    | some stop =>
      if stop ≤ limit && vmasOverlap vmas base stop then
        searchBase vmas len limit fuel (base + PAGE_SIZE)
      else base

/-- The range that the search ends with, if it ends below the limit. -/
def findRange (vmas : VmaCollection) (base len limit : Nat) : Option (Nat × Nat) :=
  let base := searchBase vmas len limit (limit / PAGE_SIZE + 1) base
  match addOverflow base len with
  | none => none
  | some stop => if limit < stop then none else some (base, stop)

/-- `map_anonymous_current`. -/
def System.mapAnonymousCurrent (root len permissions flags : Nat) (canBlock : Bool) :
    Except Errno Nat × System :=
  match s.spaces root with
  | none => (.error .ewouldblock, s)
  | some space =>
    if !space.running || !canBlock then (.error .ewouldblock, s)
    else if flags ≠ 0 ∨ len = 0 ∨ USER_ANON_MAX_PAGES * PAGE_SIZE < len then (.error .einval, s)
    else
      match pageUp len with
      | none => (.error .einval, s)
      | some len =>
        let perm := UInt8.ofNat permissions
        if !permissionsSupported perm then (.error .einval, s)
        else
          let limit := space.layout.anonymous.base + space.layout.anonymous.len
          match findRange space.vmas space.vmas.anonNext len limit with
          | none => (.error .einval, s)
          | some (base, stop) =>
            match internalAddProcessVma space.layout space.vmas
                ⟨base, stop, base, base, perm, .anonymous, .anonymous, .none, none, 0⟩ with
            | none => (.error .efault, s)
            | some vmas =>
              (.ok base, s.modifySpace root (fun space =>
                { space with vmas := { vmas with anonNext := stop } }))

/-- `unmap_anonymous_current`. -/
def System.unmapAnonymousCurrent (root addr len : Nat) (canBlock : Bool) :
    Except Errno Nat × System :=
  match s.spaces root with
  | none => (.error .ewouldblock, s)
  | some space =>
    if !space.running || !canBlock then (.error .ewouldblock, s)
    else
      match lifecycleRangeBounds addr len with
      | none => (.error .einval, s)
      | some stop =>
        match stageAnonymousUnmap space.layout space.vmas addr stop with
        | none => (.error .einval, s)
        | some staged =>
          (.ok 0, (s.unmapPages root (pagesIn addr stop)).modifySpace root
            (fun space => { space with vmas := staged }))

/-- The attributes that `protect_present_pages_in_range` gives a leaf. -/
def protectAttr (perm : UInt8) (attr : PageAttr) : PageAttr :=
  if attr.cow && permissionsInclude perm VmaPermission.Write then
    { anonymousPageAttr perm with writable := false, cow := true }
  else anonymousPageAttr perm

/-- One page of `protect_present_pages_in_range`. -/
def System.protectPage (root : Nat) (perm : UInt8) (page : Nat) : System :=
  match s.readUserLeafInRoot root page with
  | none => s
  | some leaf =>
    (s.remapUserPageInRoot root page leaf.frame (protectAttr perm leaf.attr)).getD s

/-- `protect_present_pages_in_range`, which fails at no page. -/
def System.protectPages (root : Nat) (perm : UInt8) (pages : List Nat) : System :=
  pages.foldl (fun s page => s.protectPage root perm page) s

/-- `protect_anonymous_current`. -/
def System.protectAnonymousCurrent (root addr len permissions : Nat)
    (canBlock : Bool) : Except Errno Nat × System :=
  match s.spaces root with
  | none => (.error .ewouldblock, s)
  | some space =>
    if !space.running || !canBlock then (.error .ewouldblock, s)
    else
      match lifecycleRangeBounds addr len with
      | none => (.error .einval, s)
      | some stop =>
        let perm := UInt8.ofNat permissions
        if !permissionsSupported perm then (.error .einval, s)
        else
          match stageAnonymousProtect space.layout space.vmas addr stop perm with
          | none => (.error .einval, s)
          | some staged =>
            (.ok 0, (s.protectPages root perm (pagesIn addr stop)).modifySpace root
              (fun space => { space with vmas := staged }))

/-- `dyn_map_current`. -/
def System.dynMapCurrent (root base len permissions : Nat) (canBlock : Bool) :
    Except Errno Nat × System :=
  match s.spaces root with
  | none => (.error .ewouldblock, s)
  | some space =>
    if !space.running || !canBlock then (.error .ewouldblock, s)
    else if !space.layout.dynamic then (.error .einval, s)
    else if len == 0 || !pageAligned base then (.error .einval, s)
    else
      match pageUp len with
      | none => (.error .einval, s)
      | some len =>
        let perm := UInt8.ofNat permissions
        if !permissionsSupported perm || !permissionsInclude perm VmaPermission.Read then
          (.error .einval, s)
        else
          match addOverflow base len with
          | none => (.error .einval, s)
          | some stop =>
            if base < space.layout.dynLib.base ||
                space.layout.dynLib.base + space.layout.dynLib.len < stop ||
                vmasOverlap space.vmas base stop then (.error .einval, s)
            else
              match internalAddProcessVma space.layout space.vmas
                  ⟨base, stop, base, base, perm, .dynLib, .anonymous, .none, none, 0⟩ with
              | none => (.error .efault, s)
              | some vmas =>
                (.ok base, s.modifySpace root (fun space => { space with vmas := vmas }))

/-- The loop of `dyn_protect_current` that checks the areas of the range. -/
def dynLibCovered (vmas : VmaCollection) (stop : Nat) : Nat → Nat → Bool
  | 0, cursor => stop ≤ cursor
  | fuel + 1, cursor =>
    if stop ≤ cursor then true
    else
      match vmaAt vmas cursor with
      | none => false
      | some entry =>
        dynLibCompatible entry &&
          dynLibCovered vmas stop fuel (if entry.stop < stop then entry.stop else stop)

/-- `dyn_protect_current`. -/
def System.dynProtectCurrent (root base len permissions : Nat) (canBlock : Bool) :
    Except Errno Nat × System :=
  match s.spaces root with
  | none => (.error .ewouldblock, s)
  | some space =>
    if !space.running || !canBlock then (.error .ewouldblock, s)
    else if !space.layout.dynamic then (.error .einval, s)
    else
      match lifecycleRangeBounds base len with
      | none => (.error .einval, s)
      | some stop =>
        let perm := UInt8.ofNat permissions
        if !permissionsSupported perm || !permissionsInclude perm VmaPermission.Read then
          (.error .einval, s)
        else if base < space.layout.dynLib.base ||
            space.layout.dynLib.base + space.layout.dynLib.len < stop ||
            !dynLibCovered space.vmas stop (stop - base) base then (.error .einval, s)
        else
          match stageDynLibProtect space.vmas base stop perm with
          | none => (.error .einval, s)
          | some staged =>
            (.ok 0, (s.protectPages root perm (pagesIn base stop)).modifySpace root
              (fun space => { space with vmas := staged }))

/-- The file of a descriptor. -/
structure OpenFile where
  file : Nat
  readable : Bool
  hasVnode : Bool
  isDirectory : Bool
  deriving Repr, DecidableEq

/-- `map_file_current`, given the file of the descriptor. -/
def System.mapFileCurrent (root : Nat) (file : Option OpenFile)
    (offset len permissions flags : Nat) (canBlock : Bool) : Except Errno Nat × System :=
  match s.spaces root with
  | none => (.error .ewouldblock, s)
  | some space =>
    if !space.running || !canBlock then (.error .ewouldblock, s)
    else if flags ≠ 0 ∨ len = 0 ∨ pageAligned offset = false ∨ pageAligned len = false ∨
        USER_FILEMAP_MAX_PAGES * PAGE_SIZE < len then (.error .einval, s)
    else
      let perm := UInt8.ofNat permissions
      if perm &&& ~~~(VmaPermission.Read ||| VmaPermission.Execute) != 0 ||
          !permissionsInclude perm VmaPermission.Read ||
          permissionsInclude perm VmaPermission.Write then (.error .einval, s)
      else if (addOverflow offset len).isNone then (.error .einval, s)
      else
        match file with
        | none => (.error .ebadf, s)
        | some file =>
          if !file.readable then (.error .ebadf, s)
          else if !file.hasVnode || file.isDirectory then (.error .eacces, s)
          else
            let limit := space.layout.fileMapped.base + space.layout.fileMapped.len
            match findRange space.vmas space.vmas.filemapNext len limit with
            | none => (.error .enomem, s)
            | some (base, stop) =>
              match internalAddProcessVma space.layout space.vmas
                  ⟨base, stop, base, base, perm, .fileMapped, .fileBacked, .none,
                    some file.file, offset⟩ with
              | none => (.error .enomem, s)
              | some vmas =>
                (.ok base, (s.retainFile file.file).modifySpace root (fun space =>
                  { space with vmas := { vmas with filemapNext := stop } }))

/-! ## §7. Whole address spaces. -/

/-- The pages of the lower half, in the order in which a teardown meets them. -/
@[irreducible] def lowHalfPages : List Nat := pagesIn 0 USER_LOW_HALF_LIMIT

/-- `unmap_shared_file_backed_pages`, for one area. -/
def System.unmapSharedArea (root : Nat) (vma : VmaEntry) : System :=
  if vma.backing != .fileBacked then s
  else
    (pagesIn vma.start vma.stop).foldl (fun s page =>
      match s.unmapUserPageInRoot root page with
      | none => s
      | some (phys, s) => s.sharedReadonlyDropMapping phys) s

/-- The areas of a collection, slot by slot. -/
def VmaCollection.areas (vmas : VmaCollection) : List VmaEntry :=
  (List.range MAX_VMAS).filterMap vmas.entries

/-- `unmap_shared_file_backed_pages`, which fails at no page. -/
def System.unmapSharedFileBackedPages (root : Nat) (vmas : VmaCollection) : System :=
  vmas.areas.foldl (fun s vma => s.unmapSharedArea root vma) s

/-- A leaf that a teardown meets is taken out and its frame given back. -/
def System.dropLeaf (root page : Nat) : System :=
  match s.leafAt root page with
  | none => s
  | some leaf => (s.setLeaf root page none).frameRefDecAndMaybeFree leaf.frame

/-- What `teardown_user_address_space` does to the leaves. -/
def System.teardownLeaves (root : Nat) : System :=
  lowHalfPages.foldl (fun s page => s.dropLeaf root page) s

/-- `teardown_process_address_space`: the root is gone. -/
def System.teardownProcessAddressSpace (root : Nat) : System :=
  match s.spaces root with
  | none => s
  | some space =>
    let s := (s.unmapSharedFileBackedPages root space.vmas).teardownLeaves root
    { s with spaces := update s.spaces root none }

/-- What the rest of the kernel decides in a fork. -/
structure ForkEnv where
  /-- A refusal before the address space is copied. -/
  refusal : Option Errno
  frame : Nat → Option Nat
  mapOk : Nat → Bool
  /-- A failure after the address space was copied. -/
  failure : Option Errno

/-- `clone_user_leaf`. -/
def System.cloneUserLeaf (parent child : Nat) (vma : VmaEntry) (page : Nat)
    (leaf : Leaf) (env : ForkEnv) : Bool × System :=
  match vma.backing with
  | .elfSegment =>
    match s.allocUserFrame (env.frame page) with
    | none => (false, s)
    | some (phys, s) =>
      if !s.directMapped leaf.frame then (false, s.freeUserFrame phys)
      else
        match s.fillFrame phys (s.memory leaf.frame) with
        | none => (false, s.freeUserFrame phys)
        | some s =>
          match s.mapPageInRoot child page phys leaf.attr (env.mapOk page) with
          | none => (false, s.freeUserFrame phys)
          | some s => (true, s)
  | .fileBacked =>
    match s.sharedReadonlyRetainMappingByFrame leaf.frame with
    | none => (false, s)
    | some retained =>
      match retained.mapPageInRoot child page leaf.frame leaf.attr (env.mapOk page) with
      | none => (false, retained.sharedReadonlyDropMapping leaf.frame)
      | some s => (true, s)
  | _ =>
    match s.frameRefInc leaf.frame with
    | none => (false, s)
    | some counted =>
      if leaf.attr.writable then
        match counted.mapPageInRoot child page leaf.frame (cowSharedAttr leaf.attr)
            (env.mapOk page) with
        | none => (false, counted.frameRefDecAndMaybeFree leaf.frame)
        | some s =>
          match s.remapUserPageInRoot parent page leaf.frame (cowSharedAttr leaf.attr) with
          | none => (false, s)
          | some s => (true, s)
      else
        match counted.mapPageInRoot child page leaf.frame leaf.attr (env.mapOk page) with
        | none => (false, counted.frameRefDecAndMaybeFree leaf.frame)
        | some s => (true, s)

/-- The loop of `clone_user_address_space_cow` over the pages of an area. -/
def System.clonePages (parent child : Nat) (vma : VmaEntry) (env : ForkEnv) :
    List Nat → System → Bool × System
  | [], s => (true, s)
  | page :: rest, s =>
    match s.readUserLeafInRoot parent page with
    | none => clonePages parent child vma env rest s
    | some leaf =>
      match s.cloneUserLeaf parent child vma page leaf env with
      | (false, s) => (false, s)
      | (true, s) => clonePages parent child vma env rest s

/-- The loop of `clone_user_address_space_cow` over the areas. -/
def System.cloneAreas (parent child : Nat) (env : ForkEnv) : List VmaEntry → System → Bool × System
  | [], s => (true, s)
  | vma :: rest, s =>
    if vma.backing == .guard then cloneAreas parent child env rest s
    else
      match s.clonePages parent child vma env (pagesIn vma.start vma.stop) with
      | (false, s) => (false, s)
      | (true, s) => cloneAreas parent child env rest s

/-- The files that areas refer to, one for each area. -/
def VmaCollection.backingFiles (vmas : VmaCollection) : List Nat :=
  vmas.areas.filterMap (fun vma => if vma.backing == .fileBacked then vma.fileBacking else none)

namespace System

/-- Each area of a copy takes a reference of its own. -/
def retainFileBackedVmas (vmas : VmaCollection) : System :=
  vmas.backingFiles.foldl System.retainFile s

/-- `release_file_backed_vmas`. -/
def releaseFileBackedVmas (vmas : VmaCollection) : System :=
  vmas.backingFiles.foldl System.releaseFile s

/-- The address space of a process goes, with the files of its areas. -/
def destroySpace (root : Nat) : System :=
  match s.spaces root with
  | none => s
  | some space => (s.teardownProcessAddressSpace root).releaseFileBackedVmas space.vmas

/-- `clone_user_address_space_cow`, into a root that was not in use. -/
def cloneUserAddressSpaceCow (parent child : Nat) (space : AddressSpace)
    (env : ForkEnv) : Bool × System :=
  let empty : AddressSpace := { space with leaves := fun _ => none }
  let s : System := { s with spaces := update s.spaces child (some empty) }
  System.cloneAreas parent child env space.vmas.areas (s.retainFileBackedVmas space.vmas)

/-- `fork_current`, as far as memory goes. -/
def forkCurrent (parent child : Nat) (env : ForkEnv) : Except Errno Nat × System :=
  match s.spaces parent, s.spaces child with
  | some space, none =>
    if !space.running then (.error .einval, s)
    else
      match env.refusal with
      | some errno => (.error errno, s)
      | none =>
        match s.cloneUserAddressSpaceCow parent child space env with
        | (false, s) => (.error .enomem, s.destroySpace child)
        | (true, s) =>
          match env.failure with
          | some errno => (.error errno, s.destroySpace child)
          | none => (.ok child, s)
  | _, _ => (.error .einval, s)

/-- `exit_current` and the paths that kill a process: it does not run again. -/
def exitCurrent (root : Nat) : System :=
  s.modifySpace root (fun space => { space with running := false })

/-- One process of `reap_pending_processes` whose root is not active. -/
def reap (root : Nat) : System :=
  match s.spaces root with
  | none => s
  | some space => if space.running then s else s.destroySpace root

end System

end BigOS.Proc
