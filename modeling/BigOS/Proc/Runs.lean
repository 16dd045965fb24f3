/-
  BigOS.Proc.Runs — what processes and the kernel do to user memory, step after step.

  Every operation is a sequence of effects of a mode, provided that it fits the mode: it
  leaves alone the roots and the pages that the mode keeps, and the calls that can break
  one of its properties are made where they do not.  A run that fits at every step keeps
  the invariant.

  Main results:
    • `step_effects` — one operation,
    • `runOps_inv` — a run.
-/
import BigOS.Proc.Loading

namespace BigOS.Proc

open BigOS.Lib BigOS.Mm
open BigOS.Mm.Paging (PageAttr)

variable {m : Mode} {s : System} {ok : System → Op → Bool} {op : Op}

/-! ## §1. One operation. -/

/-- An operation leaves alone what the mode keeps. -/
def Op.Fits (m : Mode) (s : System) : Op → Prop
  | .create root program env => m.Free root ∧ ProgramFits m s root program env
  | .exec root new program env =>
    m.Free root ∧ m.Free new ∧ ProgramFits m s new program env.load
  | .fault root _ _ _ => m.hold root = .free
  | .store _ _ _ => m.quiet = false
  | .brk root newBreak _ => m.hold root = .free ∧
      ∀ space page vma, s.spaces root = some space → space.vmas.heapBase ≤ newBreak →
        newBreak ≠ 0 → vmaAt space.vmas page = some vma → vma.purpose = .heap →
        newBreak ≤ page → m.keeps root page = false
  | .mapAnonymous root _ _ _ _ => m.hold root = .free
  | .unmapAnonymous root addr len _ => m.hold root = .free ∧
      ∀ page, addr ≤ page → page < addr + len → m.keeps root page = false
  | .protectAnonymous root addr len permissions _ => m.hold root = .free ∧
      ∀ space, s.spaces root = some space → pageAligned addr →
        ProtectOk m s space addr (addr + len) (UInt8.ofNat permissions)
  | .mapFile root _ _ _ _ _ _ => m.hold root = .free
  | .dynMap root _ _ _ _ => m.hold root = .free
  | .dynProtect root base len permissions _ => m.hold root = .free ∧
      ∀ space, s.spaces root = some space → pageAligned base →
        permissionsInclude (UInt8.ofNat permissions) VmaPermission.Read →
        ProtectOk m s space base (base + len) (UInt8.ofNat permissions)
  | .fork parent child _ => m.hold parent ≠ .space ∧ m.Free child
  | .exit root => m.hold root = .free
  | .reap root => m.Free root

theorem step_effects (h : Inv m s) (hfits : op.Fits m s) : Effects m s (s.step op) := by
  cases op with
  | create root program env =>
    exact createProcess_effects program env h hfits.1 hfits.2
  | exec root new program env =>
    exact execCurrentFromElfImage_effects program env h hfits.2.1 hfits.1 hfits.2.2
  | fault root addr code env => exact tryHandleUserPageFault_effects h hfits addr code env
  | store root addr byte => exact store_effects hfits addr byte
  | brk root newBreak canBlock => exact brkCurrent_effects h hfits.1 newBreak canBlock hfits.2
  | mapAnonymous root len permissions flags canBlock =>
    exact mapAnonymousCurrent_effects h hfits len permissions flags canBlock
  | unmapAnonymous root addr len canBlock =>
    exact unmapAnonymousCurrent_effects h hfits.1 addr len canBlock hfits.2
  | protectAnonymous root addr len permissions canBlock =>
    exact protectAnonymousCurrent_effects h hfits.1 addr len permissions canBlock hfits.2
  | mapFile root file offset len permissions flags canBlock =>
    exact mapFileCurrent_effects hfits file offset len permissions flags canBlock
  | dynMap root base len permissions canBlock =>
    exact dynMapCurrent_effects h hfits base len permissions canBlock
  | dynProtect root base len permissions canBlock =>
    exact dynProtectCurrent_effects h hfits.1 base len permissions canBlock hfits.2
  | fork parent child env =>
    exact forkCurrent_effects env h hfits.2 hfits.1
  | exit => exact exitCurrent_effects h hfits
  | reap => exact reap_effects h hfits

/-! ## §2. Runs. -/

/-- Every operation of a run meets a condition in the state in which it is made. -/
def System.runOk (ok : System → Op → Bool) : System → List Op → Bool
  | _, [] => true
  | s, op :: rest => ok s op && runOk ok (s.step op) rest

section

variable (hstep : ∀ s op, Inv m s → ok s op → op.Fits m s)

include hstep

theorem runOps_effects (ops : List Op) :
    ∀ s, Inv m s → s.runOk ok ops → Effects m s (s.runOps ops) := by
  intro s h hok
  -- The induction is on the operations, the state they start in generalised.
  induction ops generalizing s with
  | nil => exact .refl
  | cons op rest ih =>
    have hboth : ok s op ∧ (s.step op).runOk ok rest := by
      simpa [System.runOk] using hok
    have hfirst := step_effects h (hstep s op h hboth.1)
    exact hfirst.trans (ih (s.step op) (hfirst.inv h) hboth.2)

theorem runOps_inv (h : Inv m s) {ops : List Op} (hok : s.runOk ok ops) : Inv m (s.runOps ops) :=
  ((runOps_effects hstep ops s h hok).kept h).1

end

/-! ## §3. Modes that keep no root. -/

/-- Only what holds of every leaf is kept. -/
def Mode.leavesOnly (lone readable : Bool) : Mode where
  lone := lone
  readable := readable
  tight := false
  quiet := false
  keeps _ _ := false
  hold _ := .free

/-- The leaves of pages in a range that a call changes meet a condition. -/
def System.leavesIn (s : System) (root addr len : Nat) (p : Leaf → Bool) : Bool :=
  (pagesIn addr (addr + len)).all fun page => (s.readUserLeafInRoot root page).all p

theorem leavesIn_leaf {root addr len page : Nat} {p : Leaf → Bool} {space : AddressSpace}
    {leaf : Leaf} (h : Inv m s) (hspace : s.spaces root = some space)
    (haddr : pageAligned addr) (hin : s.leavesIn root addr len p)
    (hleaf : space.leaves page = some leaf) (hlow : addr ≤ page) (hhigh : page < addr + len) :
    p leaf := by
  have hat : s.leafAt root page = some leaf := leafAt_some.mpr ⟨space, hspace, hleaf⟩
  obtain ⟨_, hok⟩ := h.leafOk hspace hat
  have hmem : page ∈ pagesIn addr (addr + len) :=
    (mem_pagesIn haddr _ _).mpr ⟨hlow, hhigh, hok.pageOk⟩
  have hpage := List.all_eq_true.mp hin page hmem
  rw [h.readUserLeaf_eq hspace, hat] at hpage
  exact hpage

/-- Where the calls that change permissions are made as the mode needs, every operation
fits. -/
theorem fits_leavesOnly {lone readable : Bool}
    (hprotect : ∀ root addr len permissions canBlock space,
      op = .protectAnonymous root addr len permissions canBlock → s.spaces root = some space →
      pageAligned addr →
      ProtectOk (.leavesOnly lone readable) s space addr (addr + len) (UInt8.ofNat permissions))
    (hdyn : ∀ root base len permissions canBlock space,
      op = .dynProtect root base len permissions canBlock → s.spaces root = some space →
      pageAligned base → permissionsInclude (UInt8.ofNat permissions) VmaPermission.Read →
      ProtectOk (.leavesOnly lone readable) s space base (base + len) (UInt8.ofNat permissions)) :
    op.Fits (.leavesOnly lone readable) s := by
  have hfree (root : Nat) : (Mode.leavesOnly lone readable).Free root := ⟨rfl, fun _ => rfl⟩
  cases op with
  | create root program env => exact ⟨hfree root, .of_loose rfl program env⟩
  | exec root new program env => exact ⟨hfree root, hfree new, .of_loose rfl program env.load⟩
  | fault => exact rfl
  | store => exact rfl
  | brk => exact ⟨rfl, fun _ _ _ _ _ _ _ _ _ => rfl⟩
  | mapAnonymous => exact rfl
  | unmapAnonymous => exact ⟨rfl, fun _ _ _ => rfl⟩
  | protectAnonymous root addr len permissions canBlock =>
    exact ⟨rfl, fun space => hprotect root addr len permissions canBlock space rfl⟩
  | mapFile => exact rfl
  | dynMap => exact rfl
  | dynProtect root base len permissions canBlock =>
    exact ⟨rfl, fun space => hdyn root base len permissions canBlock space rfl⟩
  | fork parent child => exact ⟨nofun, hfree child⟩
  | exit => exact rfl
  | reap root => exact hfree root

theorem fits_always (s : System) (op : Op) : op.Fits (.leavesOnly false false) s :=
  fits_leavesOnly (fun _ _ _ _ _ _ _ _ _ => ⟨nofun, nofun⟩)
    (fun _ _ _ _ _ _ _ _ _ _ => ⟨nofun, nofun⟩)

theorem runOk_true (ops : List Op) : ∀ s : System, s.runOk (fun _ _ => true) ops := by
  induction ops with
  | nil => exact fun _ => rfl
  | cons op rest ih => exact fun s => ih (s.step op)

/-- What holds of leaves and areas holds after every run. -/
theorem runs_effects (hboot : s.Booted) (ops : List Op) :
    Effects (.leavesOnly false false) s (s.runOps ops) :=
  runOps_effects (fun s op _ _ => fits_always s op) ops s (hboot.inv _) (runOk_true ops s)

/-! ## §4. A small process. -/

/-- A static image with one segment of code. -/
def smallElf : List UInt8 :=
  [0x7f, 0x45, 0x4c, 0x46, 2, 1, 1, 0, 0, 0, 0, 0, 0, 0, 0, 0, 2, 0, 62, 0, 1, 0, 0, 0] ++
    wordBytes 0x400000 ++ wordBytes 64 ++ wordBytes 0 ++
    [0, 0, 0, 0, 64, 0, 56, 0, 1, 0, 64, 0, 0, 0, 0, 0] ++
    [1, 0, 0, 0, 5, 0, 0, 0] ++ wordBytes 0 ++ wordBytes 0x400000 ++ wordBytes 0 ++
    wordBytes 120 ++ wordBytes 120 ++ wordBytes 0x1000

def smallProgram : Program where
  image := ⟨120, fun i => (smallElf[i]?).getD 0⟩
  args := ⟨[], []⟩
  elfFile := none
  dynamicLink := false
  interp _ := .error .unsupportedElf

/-- Nothing fails, and a page gets the frame of its own number. -/
def smallLoad : LoadEnv where
  kernelStackOk := true
  rootOk := true
  contextOk := true
  kernelStackMapped := true
  frame page := some page
  mapOk _ := true
  fault _ := ⟨true, true, none, true, none, none⟩
  publishOk := true

def smallFault (page : Nat) : FaultEnv := ⟨true, true, some page, true, none, none⟩

def smallFork : ForkEnv := ⟨none, fun page => some (page + 0x10000000), fun _ => true, none⟩

/-- A machine on which nothing runs. -/
def emptySystem : System where
  spaces _ := none
  shared _ := none
  refcount _ := 0
  allocated _ := false
  memory _ _ := 0
  tracked _ := true
  directMapped _ := true
  fileRefs _ := 0

theorem emptySystem_booted : emptySystem.Booted := ⟨fun _ => rfl, fun _ => rfl, fun _ => rfl⟩

/-- A process with an anonymous mapping. -/
def mappedRun : List Op := [.create 1 smallProgram smallLoad, .mapAnonymous 1 4096 3 0 true]

/-- The process has written to its mapping. -/
def smallRun : List Op := mappedRun ++ [.fault 1 0x1000000 6 (smallFault 0x1000000)]

end BigOS.Proc
