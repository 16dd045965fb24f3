/-
  BigOS.Proc.Directory — the directory of shared read-only pages, in every run.

  A page of a file that is only read is kept once, in a frame that the directory owns next
  to the leaves that map it.  The counters of an entry and of its frame are those of the
  leaves; the entry holds one reference to its file.

  Main results:
    • `runs_directoryExact` — the directory after every run.
-/
import BigOS.Proc.Runs

namespace BigOS.Proc

open BigOS.Lib BigOS.Mm RefCount Owner

/-! ## §1. The leaves of a frame. -/

/-- The user leaves that map a frame. -/
def System.mappers (s : System) (f : Nat) : Set (Nat × Nat) :=
  {at_ | s.owner (.leaf at_.1 at_.2) = some f}

/-- The owners of a frame of the directory are its entry and the leaves that map it. -/
theorem Inv.owners_cached {m : Mode} {s : System} (h : Inv m s) {k : Nat}
    {entry : SharedReadonlyPage} (hk : s.shared k = some entry) :
    {o | s.owner o = some entry.framePhys} =
      insert (.cache k) (Set.image (fun at_ : Nat × Nat => leaf at_.1 at_.2)
        (s.mappers entry.framePhys)) := by
  ext o
  constructor
  · intro ho
    cases o with
    | leaf root page => exact .inr ⟨(root, page), ho, rfl⟩
    | cache j =>
      have hj : j = k := h.distinct j k entry.framePhys ho (owner_cache hk)
      exact .inl (congrArg cache hj)
  · intro ho
    rcases ho with heq | ⟨at_, hat, heq⟩
    · rw [heq]
      exact owner_cache hk
    · rw [← heq]
      exact hat

/-- An entry counts the leaves that map its frame. -/
theorem Inv.mappers_ncard {m : Mode} {s : System} (h : Inv m s) {k : Nat}
    {entry : SharedReadonlyPage} (hk : s.shared k = some entry) :
    (s.mappers entry.framePhys).ncard = entry.pteRefs := by
  have hcount := (h.entries k entry hk).count
  have hinj : Function.Injective (fun at_ : Nat × Nat => leaf at_.1 at_.2) := by
    intro a b hab
    exact Prod.ext (leaf.inj hab).1 (leaf.inj hab).2
  have howners := h.owners_cached hk
  have hfinite : (Set.image (fun at_ : Nat × Nat => leaf at_.1 at_.2)
      (s.mappers entry.framePhys)).Finite := by
    refine (h.exact.finite.owners entry.framePhys).subset ?_
    rw [howners]
    exact Set.subset_insert ..
  unfold count at hcount
  rw [howners, Set.ncard_insert_of_notMem ?_ hfinite, Set.ncard_image_of_injective _ hinj] at hcount
  · exact Nat.succ.inj hcount
  · intro hmem
    obtain ⟨at_, _, heq⟩ := hmem
    exact cache_ne_leaf k at_.1 at_.2 heq.symm

/-! ## §2. Every run. -/

/-- What the directory keeps, with the references to files from outside of user memory. -/
structure DirectoryExact (outside : Nat → Nat) (s : System) : Prop where
  /-- The counter of an entry is the number of leaves that map its frame. -/
  counted : ∀ k entry, s.shared k = some entry → (s.mappers entry.framePhys).ncard = entry.pteRefs
  /-- The count of the frame has the entry as one more owner. -/
  refcount : ∀ k entry, s.shared k = some entry → s.refcount entry.framePhys = entry.pteRefs + 1
  /-- Every entry, as every area that a file backs, has one reference to its file. -/
  retained : ∀ f, s.fileRefs f = outside f + count s.holder f
  /-- An entry is there for a leaf that maps its frame, and no longer. -/
  mapped : ∀ k entry, s.shared k = some entry → (s.mappers entry.framePhys).Nonempty
  /-- A page of an area that a file backs has an entry as long as it is mapped. -/
  listed : ∀ root space page leaf kind, s.spaces root = some space →
    space.leaves page = some leaf → kindAt space.vmas page = some kind →
    kind.backing = .fileBacked → ∃ k entry, s.shared k = some entry ∧ entry.framePhys = leaf.frame
  /-- A frame that a leaf or an entry refers to is allocated. -/
  allocated : (∀ root page leaf, s.leafAt root page = some leaf → s.allocated leaf.frame) ∧
    ∀ k entry, s.shared k = some entry → s.allocated entry.framePhys

/-- The counters, the references and the frames of the directory are in order after every
sequence of loads, mappings, faults, forks, execs and teardowns. -/
theorem runs_directoryExact {s : System} (hboot : s.Booted) (ops : List Op) :
    DirectoryExact s.fileRefs (s.runOps ops) := by
  have hstart := hboot.inv (.leavesOnly false false)
  have heffects := runs_effects hboot ops
  have hinv := heffects.inv hstart
  refine ⟨fun k entry hk => hinv.mappers_ncard hk, fun k entry hk => ?_, fun f => ?_,
    fun k entry hk => ?_, fun root space page leaf kind hspace hleaf hkind hback => ?_,
    fun root page leaf hleaf => hinv.exact.allocated _ _ (owner_leaf hleaf),
    fun k entry hk => hinv.exact.allocated _ _ (owner_cache hk)⟩
  · -- A frame with a leaf and an entry has two owners at least, so its count is stored.
    have hentry := hinv.entries k entry hk
    rw [hinv.exact.stored, hentry.count]
    unfold encode
    have hmapped := hentry.mapped
    rw [if_neg (by omega)]
  · have hfiles := heffects.files hstart f
    have hnone : count s.holder f = 0 := by
      have hempty : {o | s.holder o = some f} = ∅ := by
        ext o
        cases o with
        | area => simp [System.holder, hboot.spaces]
        | page => simp [System.holder, hboot.shared]
      unfold count
      rw [hempty, Set.ncard_empty]
    omega
  · refine Set.nonempty_of_ncard_ne_zero ?_
    rw [hinv.mappers_ncard hk]
    exact Nat.pos_iff_ne_zero.mp (hinv.entries k entry hk).mapped
  · obtain ⟨kind', hok⟩ := hinv.leaves root space page leaf hspace hleaf
    have harea := hok.area
    rw [hkind] at harea
    cases harea
    exact cached_entry (hok.cached.mpr hback)

/-- A process maps a page of a file, reads it, and forks. -/
def sharedPageRun : List Op :=
  [.create 1 smallProgram smallLoad, .mapFile 1 (some ⟨5, true, true, false⟩) 0 4096 1 0 true,
    .fault 1 0x4000000 4 ⟨true, true, some 0x9000, true, some 7, some fun _ => 1⟩,
    .fork 1 2 smallFork]

theorem directoryExact_sharedPage : emptySystem.Booted ∧
    (emptySystem.runOps sharedPageRun).shared 0 = some ⟨⟨7, 0, true, true⟩, 0x9000, 2, 5⟩ ∧
    DirectoryExact emptySystem.fileRefs (emptySystem.runOps sharedPageRun) :=
  ⟨emptySystem_booted, by decide +kernel, runs_directoryExact emptySystem_booted sharedPageRun⟩

end BigOS.Proc
