/-
  BigOS.Proc.Protection — what the leaves of processes permit, in every run.

  A frame that one process can write is not mapped by another, and a leaf permits no more
  than the area it lies in.  Two calls can break this.  `protect` gives the write
  permission to a leaf without a copy-on-write marker even where a fork has shared its
  frame, and it leaves pages present, and with that readable, when it takes the read
  permission from their area.

  Main results:
    • `runs_isolated` — stores stay in the process that makes them,
    • `runs_granted` — leaves and their areas,
    • `runs_apart`, `runs_ledger` — what a run leaves alone.
-/
import BigOS.Proc.DemandPaging

namespace BigOS.Proc

open BigOS.Lib BigOS.Mm Function
open BigOS.Mm.Paging (PageAttr)

variable {s : System} {start stop : Nat} {layout : UserRuntimeLayout} {space : AddressSpace}

/-! ## §1. Isolation. -/

/-- No leaf of a frame that others have gets the write permission without a marker. -/
def System.protectUnshared (s : System) (root addr len permissions : Nat) : Bool :=
  !permissionsInclude (UInt8.ofNat permissions) VmaPermission.Write ||
    s.leavesIn root addr len (fun leaf => leaf.attr.cow || !s.frameRefIsShared leaf.frame)

/-- An operation that keeps processes apart. -/
def Op.unshared (s : System) : Op → Bool
  | .protectAnonymous root addr len permissions _ => s.protectUnshared root addr len permissions
  | .dynProtect root base len permissions _ => s.protectUnshared root base len permissions
  | _ => true

theorem protectOk_unshared {root addr len permissions : Nat}
    (h : Inv (.leavesOnly true false) s) (hspace : s.spaces root = some space)
    (haddr : pageAligned addr) (hok : s.protectUnshared root addr len permissions) :
    ProtectOk (.leavesOnly true false) s space addr (addr + len) (UInt8.ofNat permissions) := by
  refine ⟨nofun, fun _ hwrite page leaf hleaf hlow hhigh hcow => ?_⟩
  unfold System.protectUnshared at hok
  rw [hwrite, Bool.not_true, Bool.false_or] at hok
  have hleafOk := leavesIn_leaf h hspace haddr hok hleaf hlow hhigh
  rw [hcow, Bool.false_or, Bool.not_eq_true'] at hleafOk
  exact hleafOk

theorem unshared_fits {op : Op} (h : Inv (.leavesOnly true false) s) (hok : op.unshared s) :
    op.Fits (.leavesOnly true false) s := by
  refine fits_leavesOnly ?_ ?_
  · intro root addr len permissions canBlock space hop hspace haddr
    subst hop
    exact protectOk_unshared h hspace haddr hok
  · intro root base len permissions canBlock space hop hspace haddr _
    subst hop
    exact protectOk_unshared h hspace haddr hok

/-- What a page of a root holds. -/
def System.pageBytes (s : System) (root page : Nat) : Option (Nat → UInt8) :=
  (s.leafAt root page).map fun leaf => s.memory leaf.frame

/-- A store goes to one frame, which the leaf of its page has with the write permission. -/
theorem store_eq (s : System) (root addr : Nat) (byte : UInt8) :
    s.store root addr byte = s ∨ ∃ leaf, s.leafAt root (pageDown addr) = some leaf ∧
      leaf.attr.writable ∧ s.store root addr byte = { s with
        memory := update s.memory leaf.frame
          (update (s.memory leaf.frame) (addr % PAGE_SIZE) byte) } := by
  unfold System.store
  cases hspace : s.spaces root with
  | none => exact .inl rfl
  | some space =>
    dsimp only
    cases hleaf : space.leaves (pageDown addr) with
    | none => exact .inl rfl
    | some leaf =>
      dsimp only
      by_cases hcond : (space.running && leaf.attr.present && leaf.attr.user &&
          leaf.attr.writable) = true
      · rw [if_pos hcond]
        have hwrite : leaf.attr.writable := (Bool.and_eq_true _ _ ▸ hcond).2
        exact .inr ⟨leaf, leafAt_some.mpr ⟨space, hspace, hleaf⟩, hwrite, rfl⟩
      · exact .inl (if_neg hcond)

/-- In a run whose protect calls keep processes apart, no frame that one root maps
writable is mapped by another, and the pages of a root do not change under the stores of
another. -/
theorem runs_isolated {s : System} (hboot : s.Booted) {ops : List Op}
    (hok : s.runOk (fun s op => op.unshared s) ops = true) :
    (∀ root page leaf root' page' leaf', (s.runOps ops).leafAt root page = some leaf →
      leaf.attr.writable = true → (s.runOps ops).leafAt root' page' = some leaf' →
      leaf'.frame = leaf.frame → root' = root) ∧ ∀ root addr byte root' page, root' ≠ root →
      ((s.runOps ops).store root addr byte).pageBytes root' page =
        (s.runOps ops).pageBytes root' page := by
  have hinv : Inv (.leavesOnly true false) (s.runOps ops) :=
    runOps_inv (fun _ _ h => unshared_fits h) (hboot.inv _) hok
  generalize s.runOps ops = t at hinv
  have hapart : ∀ root page leaf root' page' leaf', t.leafAt root page = some leaf →
      leaf.attr.writable = true → t.leafAt root' page' = some leaf' →
      leaf'.frame = leaf.frame → root' = root := by
    intro root page leaf root' page' leaf' hleaf hwrite hleaf' hframe
    have howner := hinv.lone rfl root page leaf hleaf hwrite (.leaf root' page')
      (hframe ▸ owner_leaf hleaf')
    exact (Owner.leaf.inj howner).1
  refine ⟨hapart, fun root addr byte root' page hne => ?_⟩
  rcases store_eq t root addr byte with hsame | ⟨leaf, hleaf, hwrite, hstore⟩
  · rw [hsame]
  rw [hstore]
  show (t.leafAt root' page).map _ = (t.leafAt root' page).map _
  cases hleaf' : t.leafAt root' page with
  | none => rfl
  | some leaf' =>
    have hframe : leaf'.frame ≠ leaf.frame := fun heq =>
      hne (hapart root (pageDown addr) leaf root' page leaf' hleaf hwrite hleaf' heq)
    exact congrArg some (update_of_ne hframe ..)

/-- A page that is written, made read-only, shared by a fork and made writable again in
the parent after the child has gone. -/
def apartRun : List Op :=
  smallRun ++ [.protectAnonymous 1 0x1000000 4096 1 true, .fork 1 2 smallFork,
    .unmapAnonymous 2 0x1000000 4096 true, .protectAnonymous 1 0x1000000 4096 3 true]

theorem runs_isolated_apartRun : emptySystem.runOk (fun s op => op.unshared s) apartRun = true ∧
      ((emptySystem.runOps apartRun).store 1 0x1000000 7).pageBytes 2 0x7ff000 =
        (emptySystem.runOps apartRun).pageBytes 2 0x7ff000 := by
  have hok : emptySystem.runOk (fun s op => op.unshared s) apartRun := by decide +kernel
  exact ⟨hok, (runs_isolated emptySystem_booted hok).2 1 0x1000000 7 2 0x7ff000 (by decide)⟩

/-- A page is made read-only, shared by a fork, and made writable again in the child. -/
def leakRun : List Op :=
  smallRun ++ [.protectAnonymous 1 0x1000000 4096 1 true, .fork 1 2 smallFork,
    .protectAnonymous 2 0x1000000 4096 3 true]

/-- The frame is the parent's as well, and a store of the child shows there. -/
theorem leakRun_not_isolated : emptySystem.Booted ∧
    ((emptySystem.runOps leakRun).leafAt 1 0x1000000).map Leaf.frame = some 0x1000000 ∧
    ((emptySystem.runOps leakRun).leafAt 2 0x1000000).map
      (fun leaf => (leaf.frame, leaf.attr.writable)) = some (0x1000000, true) ∧
    ((emptySystem.runOps leakRun).pageBytes 1 0x1000000).map (· 0) = some 0 ∧
    (((emptySystem.runOps leakRun).store 2 0x1000000 7).pageBytes 1 0x1000000).map (· 0) = some 7 :=
  ⟨emptySystem_booted, by decide +kernel, by decide +kernel, by decide +kernel, by decide +kernel⟩

/-! ## §2. Leaves and their areas. -/

/-- The read permission is not taken from pages that are there. -/
def System.protectReadable (s : System) (root addr len permissions : Nat) : Bool :=
  permissionsInclude (UInt8.ofNat permissions) VmaPermission.Read ||
    s.leavesIn root addr len (fun _ => false)

/-- An operation that leaves no page readable in an area that is not. -/
def Op.readable (s : System) : Op → Bool
  | .protectAnonymous root addr len permissions _ => s.protectReadable root addr len permissions
  | _ => true

theorem readable_fits {op : Op} (h : Inv (.leavesOnly false true) s) (hok : op.readable s) :
    op.Fits (.leavesOnly false true) s := by
  refine fits_leavesOnly ?_ ?_
  · intro root addr len permissions canBlock space hop hspace haddr
    subst hop
    refine ⟨fun _ page leaf hleaf hlow hhigh => ?_, nofun⟩
    have hok' : permissionsInclude (UInt8.ofNat permissions) VmaPermission.Read ∨
        s.leavesIn root addr len (fun _ => false) = true := by
      simpa [Op.readable, System.protectReadable] using hok
    rcases hok' with hread | hnone
    · exact hread
    · cases leavesIn_leaf h hspace haddr hnone hleaf hlow hhigh
  · intro root base len permissions canBlock space hop hspace haddr hread
    exact ⟨fun _ _ _ _ _ _ => hread, nofun⟩

/-- An area permits what a leaf in it permits. -/
structure Granted (page : Nat) (leaf : Leaf) (vma : VmaEntry) : Prop where
  inside : vma.start ≤ page ∧ page + PAGE_SIZE ≤ vma.stop
  readable : leaf.attr.present → leaf.attr.user →
    permissionsInclude vma.permissions VmaPermission.Read
  writable : leaf.attr.writable → permissionsInclude vma.permissions VmaPermission.Write
  executable : leaf.attr.noExecute = false →
    permissionsInclude vma.permissions VmaPermission.Execute
  notBoth : ¬(leaf.attr.writable ∧ leaf.attr.noExecute = false)

/-- The areas of a process. -/
structure AreasSound (layout : UserRuntimeLayout) (vmas : VmaCollection) : Prop where
  aligned : ∀ i vma, vmas.entries i = some vma → vma.start < vma.stop ∧
    pageAligned vma.start ∧ pageAligned vma.stop
  disjoint : ∀ i j vma other, vmas.entries i = some vma → vmas.entries j = some other → i ≠ j →
    vma.stop ≤ other.start ∨ other.stop ≤ vma.start
  region : ∀ i vma, vmas.entries i = some vma →
    (layout.region vma.purpose).1 ≤ vma.start ∧ vma.stop ≤ (layout.region vma.purpose).2
  slots : ∀ i vma, vmas.entries i = some vma → i < MAX_VMAS
  count : vmas.count = Slots.occupied MAX_VMAS (fun i => (vmas.entries i).isSome)

theorem VmasOk.sound {vmas : VmaCollection} (h : VmasOk layout vmas) : AreasSound layout vmas where
  aligned i vma hi := by
    have hbounds := runtimeVmaAllowed_bounds (h.allowed i vma hi)
    exact ⟨hbounds.1, hbounds.2.1, hbounds.2.2.1⟩
  disjoint := h.disjoint
  region i vma hi := runtimeVmaAllowed_region (h.allowed i vma hi)
  slots := h.bound
  count := h.count

theorem Inv.granted {root page : Nat} {leaf : Leaf}
    (h : Inv (.leavesOnly false true) s) (hspace : s.spaces root = some space)
    (hleaf : space.leaves page = some leaf) :
    ∃ i vma, space.vmas.entries i = some vma ∧ Granted page leaf vma := by
  obtain ⟨kind, hok⟩ := h.leaves root space page leaf hspace hleaf
  have harea := hok.area
  obtain ⟨vma, hvma, rfl⟩ := kindAt_some.mp harea
  obtain ⟨i, _, hi, hlow, hhigh⟩ := vmaAt_some hvma
  have hsound := (h.areas root space hspace).sound
  have hattr : internalVmaAttrAllowed vma leaf.attr := hok.attr
  unfold internalVmaAttrAllowed at hattr
  have hwx := (h.areas root space hspace).notWx i vma hi
  have hwrite : leaf.attr.writable →
      permissionsInclude vma.permissions VmaPermission.Write = true := by
    intro hw
    by_contra hno
    simp [hw, hno] at hattr
  have hexec : leaf.attr.noExecute = false →
      permissionsInclude vma.permissions VmaPermission.Execute = true := by
    intro hx
    by_contra hno
    simp [hx, hno] at hattr
  -- The page lies in the area as a whole.
  have hinside : page + PAGE_SIZE ≤ vma.stop := by
    have hstop := (hsound.aligned i vma hi).2.2
    have hpage := hok.pageOk
    simp only [pageAligned, beq_iff_eq, PAGE_SIZE] at hstop hpage ⊢
    omega
  refine ⟨i, vma, hi, ⟨hlow, hinside⟩, fun _ _ => hok.readable rfl, hwrite, hexec, fun hboth => ?_⟩
  have hboth' : permissionsWx vma.permissions := by
    unfold permissionsWx
    rw [hwrite hboth.1, hexec hboth.2]
    rfl
  rw [hwx] at hboth'
  cases hboth'

/-- In a run in which no protect call takes the read permission from a page that is
there, a leaf lies in an area that permits what the leaf permits, and the areas are
aligned, disjoint, in their regions and counted. -/
theorem runs_granted {s : System} (hboot : s.Booted) {ops : List Op}
    (hok : s.runOk (fun s op => op.readable s) ops = true) :
    ∀ root space, (s.runOps ops).spaces root = some space →
      (∀ page leaf, space.leaves page = some leaf →
        ∃ i vma, space.vmas.entries i = some vma ∧ Granted page leaf vma) ∧
      AreasSound space.layout space.vmas := by
  have hinv : Inv (.leavesOnly false true) (s.runOps ops) :=
    runOps_inv (fun _ _ h => readable_fits h) (hboot.inv _) hok
  intro root space hspace
  exact ⟨fun page leaf hleaf => hinv.granted hspace hleaf, (hinv.areas root space hspace).sound⟩

theorem runs_granted_smallRun : emptySystem.runOk (fun s op => op.readable s) smallRun = true ∧
      ∀ root space, (emptySystem.runOps smallRun).spaces root = some space →
        AreasSound space.layout space.vmas := by
  have hok : emptySystem.runOk (fun s op => op.readable s) smallRun := by decide +kernel
  exact ⟨hok, fun root space hspace =>
    (runs_granted emptySystem_booted hok root space hspace).2⟩

/-- The process gives up every permission on a page that is there. -/
def hiddenRun : List Op := smallRun ++ [.protectAnonymous 1 0x1000000 4096 0 true]

/-- The leaf is still there, for the user, in an area without the read permission. -/
theorem hiddenRun_not_granted : emptySystem.Booted ∧
    ((emptySystem.runOps hiddenRun).leafAt 1 0x1000000).map
      (fun leaf => (leaf.attr.present, leaf.attr.user)) = some (true, true) ∧
    (((emptySystem.runOps hiddenRun).spaces 1).bind fun space =>
      (vmaAt space.vmas 0x1000000).map VmaEntry.permissions) = some VmaPermission.None :=
  ⟨emptySystem_booted, by decide +kernel, by decide +kernel⟩

/-! ## §3. What a run leaves alone. -/

/-- The roots that an operation names. -/
def Op.roots : Op → List Nat
  | .exec root new .. | .fork root new _ => [root, new]
  | .create root .. | .fault root .. | .store root .. | .brk root .. | .mapAnonymous root ..
  | .unmapAnonymous root .. | .protectAnonymous root .. | .mapFile root .. | .dynMap root ..
  | .dynProtect root .. | .exit root | .reap root => [root]

/-- Loading a program loses the frame of a stack that gets no area. -/
def Op.loads : Op → Bool
  | .create .. | .exec .. => true
  | _ => false

/-- One address space is kept, and every frame if the mode is tight. -/
def Mode.apart (kept : Option Nat) (tight : Bool) : Mode :=
  { leavesOnly false false with
    tight := tight
    hold := fun root => if kept = some root then .space else .free }

theorem fits_apart {op : Op} {kept : Option Nat} {tight : Bool}
    (hkept : ∀ root ∈ op.roots, kept ≠ some root) (htight : op.loads → tight = false) :
    op.Fits (.apart kept tight) s := by
  have hfree : ∀ root ∈ op.roots, (Mode.apart kept tight).Free root :=
    fun root hroot => ⟨if_neg (hkept root hroot), fun _ => rfl⟩
  cases op with
  | create _ program env => exact ⟨hfree _ (.head _), .of_loose (htight rfl) program env⟩
  | exec _ _ program env =>
    exact ⟨hfree _ (.head _), hfree _ (.tail _ (.head _)), .of_loose (htight rfl) program env.load⟩
  | store => rfl
  | fork => exact ⟨by rw [(hfree _ (.head _)).1]; nofun, hfree _ (.tail _ (.head _))⟩
  | reap => exact hfree _ (.head _)
  | fault | mapAnonymous | mapFile | dynMap | exit => exact (hfree _ (.head _)).1
  | brk | unmapAnonymous => exact ⟨(hfree _ (.head _)).1, by intros; rfl⟩
  | protectAnonymous | dynProtect =>
    exact ⟨(hfree _ (.head _)).1, by intros; exact ⟨nofun, nofun⟩⟩

theorem runs_kept {ok : System → Op → Bool} {kept : Option Nat} {tight : Bool}
    (hboot : s.Booted) (before ops : List Op)
    (hfits : ∀ t op, ok t op → op.Fits (.apart kept tight) t)
    (hok : (s.runOps before).runOk ok ops) :
    Kept (.apart kept tight) (s.runOps before) ((s.runOps before).runOps ops) := by
  have hinv : Inv (.apart kept tight) (s.runOps before) :=
    ((runs_effects hboot before).inv (hboot.inv _)).weaken nofun nofun
  exact ((runOps_effects (fun t op _ => hfits t op) ops _ hinv hok).kept hinv).2

/-- **Processes are apart.**  What other processes do, whether it succeeds or fails, leaves
the layout, the areas and the leaves of an address space. -/
theorem runs_apart (hboot : s.Booted) (before ops : List Op) (root : Nat)
    (hops : (s.runOps before).runOk (fun _ op => !op.roots.contains root) ops) :
    ((s.runOps before).runOps ops).spaces root = (s.runOps before).spaces root := by
  have hkept : Kept (.apart (some root) false) _ _ := runs_kept hboot before ops
    (fun t op hop => fits_apart (fun r hr heq => by simp_all) (fun _ => rfl)) hops
  exact hkept.holds.spaces root (if_pos rfl)

theorem runs_apart_second :
    ((emptySystem.runOps smallRun).runOps [.create 2 smallProgram smallLoad, .exit 2]).spaces 1 =
      (emptySystem.runOps smallRun).spaces 1 :=
  runs_apart emptySystem_booted smallRun _ 1 (by decide)

/-- **No frame is lost** by faults, forks, mappings, exits and reaps, whether they succeed or
fail, and the references to files stay those of their holders. -/
theorem runs_ledger (hboot : s.Booted) (before ops : List Op)
    (hops : (s.runOps before).runOk (fun _ op => !op.loads) ops) :
    Ledger (s.runOps before) ((s.runOps before).runOps ops) := by
  have hkept : Kept (.apart none true) _ _ := runs_kept hboot before ops
    (fun t op hop => fits_apart (fun _ _ => nofun) (fun h => by simp_all)) hops
  exact hkept.ledger rfl

theorem runs_ledger_fork : Ledger (emptySystem.runOps smallRun)
    ((emptySystem.runOps smallRun).runOps [.fork 1 2 smallFork, .exit 1, .reap 1]) :=
  runs_ledger emptySystem_booted smallRun _ (by decide)

end BigOS.Proc
