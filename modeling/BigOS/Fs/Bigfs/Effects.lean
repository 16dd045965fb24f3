/-
  BigOS.Fs.Bigfs.Effects — everything that an operation can do.

  `Good` is the invariant of a mount.  From a good state every operation ends in one of
  the ways that `Effect` lists: it fails and changes nothing, it opens an inode, creates
  one, cuts or writes a file, removes or renames an entry, closes an inode, or stores
  times.  What holds of all operations is proved from this list.

  Main results: `exec_effect`.
-/
import BigOS.Fs.Bigfs.Relink

namespace BigOS.Fs.Bigfs

open BigOS.Lib BigOS.Fs.Journal Volume List

variable {img : Image} {path : CString}

variable {s : Volume} {i : Nat} {status : Status} {plan : List Nat}

/-! ## §1. The invariant of a mount. -/

/-- The blocks of the inode table. -/
def tableBlocks : List Nat := List.range' INODE_TABLE_START INODE_TABLE_BLOCKS

/-- What may wait for the next commit: blocks of the inode table. -/
structure PlanOk (plan : List Nat) : Prop where
  nodup : plan.Nodup
  table : plan ⊆ tableBlocks

/-- The structure of the image, with the references: what is not linked is open, and what
is open is in use. -/
structure Good (s : Volume) : Prop where
  sane : Sane s.live
  held : ∀ i, InUse s.live i → (s.live.inodes i).linkCount = 0 → s.openRefs i ≠ 0
  refs : ∀ i, s.openRefs i ≠ 0 → InUse s.live i
  plan : PlanOk s.plan

theorem PlanOk.nil : PlanOk [] := ⟨nodup_nil, nil_subset _⟩

theorem inodeTableBlockNo_mem (hi : i < INODE_COUNT) : inodeTableBlockNo i ∈ tableBlocks := by
  have hvals : INODE_COUNT = 32 ∧ INODE_TABLE_START = 3 ∧ INODES_PER_BLOCK = 4 ∧
      INODE_TABLE_BLOCKS = 8 := ⟨rfl, rfl, rfl, rfl⟩
  unfold tableBlocks inodeTableBlockNo
  rw [mem_range'_1, hvals.2.1, hvals.2.2.1, hvals.2.2.2]
  omega

/-- A block of the inode table is added. -/
theorem PlanOk.add (h : PlanOk plan) (hi : i < INODE_COUNT) :
    ∃ plan', planAdd plan [inodeTableBlockNo i] = (true, plan') ∧ PlanOk plan' := by
  have hsub : [inodeTableBlockNo i] ⊆ tableBlocks := fun b hb =>
    mem_singleton.mp hb ▸ inodeTableBlockNo_mem hi
  obtain ⟨plan', heq, hnodup, hin⟩ := planAdd_ok plan [inodeTableBlockNo i] tableBlocks h.nodup
    h.table hsub (by decide) (by decide)
  refine ⟨plan', heq, hnodup, fun b hb => ?_⟩
  exact ((hin b).mp hb).elim (fun hb => h.table hb) (fun hb => hsub hb)

theorem PlanOk.flush (h : PlanOk plan) (hs : s.plan = plan) :
    ∃ plan', metadataCommitFlush s = (true, s.commit plan') := by
  have hlen : s.plan.length ≤ tableBlocks.length := by
    rw [hs]
    exact (h.nodup.subperm h.table).length_le
  obtain ⟨plan', heq, _⟩ := metadataCommitFlush_ok
    (lt_of_le_of_lt hlen (by decide : tableBlocks.length < JOURNAL_MAX_RECORDS))
  exact ⟨plan', heq⟩

theorem Good.inUse_regular (h : Good s) (hi : i < INODE_COUNT)
    (hreg : (s.live.inodes i).type = .regular) : InUse s.live i := by
  refine ⟨hi, ?_⟩
  rw [← Bool.not_eq_false, (h.sane.shape i hi).free, hreg]
  decide

/-! ## §2. The ways an operation can end. -/

/-- A name is entered for a new inode, and the change is committed. -/
structure Creates (s : Volume) (parent : Nat) (leaf : List UInt8) (type : InodeType)
    (child : Nat) (s' : Volume) : Prop where
  place : Place s.live parent leaf
  lookup : dirLookup s.live (s.live.inodes parent) leaf = none
  lt : child < INODE_COUNT
  bit : s.live.inodeBitmap child = false
  result : ∃ k G plan node now, SlotRoom s.live parent k G ∧ Fresh node ∧ node.type = type ∧
    s' = commit { s with live := createdImage G parent k leaf child node now } plan ∧
    ∀ b, b ∈ plan ↔ b = 0 ∨ b ∈ fileCreateBlocks parent (touchDir (G.inodes parent) now) child node

/-- A file is cut or grown. -/
structure Truncates (s : Volume) (i length : Nat) (s' : Volume) : Prop where
  inUse : InUse s.live i
  regular : (s.live.inodes i).type = .regular
  size : length ≤ MAX_FILE_SIZE
  result : ∃ committed plan now, committed = { s.live.inodes i with
      mtime := now, ctime := now, size := length
      direct := fun d => if keptBlocks length ≤ d ∧ d < DIRECT_BLOCKS then 0
        else (s.live.inodes i).direct d } ∧
    s' = commit { s with live := truncatedImage s.live i length committed } plan ∧
    ∀ b, b ∈ plan ↔ b = 0 ∨
      b ∈ truncateBlocks i committed (s.live.inodes i) (tailBlock (s.live.inodes i) length)
        ((directFrom (s.live.inodes i) (keptBlocks length)).any (· ≠ 0))

/-- Bytes are written to a file. -/
structure Writes (s : Volume) (i offset : Nat) (bytes : List UInt8) (s' : Volume) : Prop where
  inUse : InUse s.live i
  regular : (s.live.inodes i).type = .regular
  nonempty : bytes ≠ []
  size : offset + bytes.length ≤ MAX_FILE_SIZE
  result : ∃ img direct committed plan now, ∃ allocated : Bool,
    Reserved s.live i (s.live.inodes i).direct (spanOf offset bytes.length) img direct ∧
    (allocated = false → img = s.live) ∧ committed = { s.live.inodes i with
      mtime := now, ctime := now, direct := direct
      size := max (s.live.inodes i).size (offset + bytes.length) } ∧ s' = commit
      { s with live := writtenImage s.live img i offset bytes direct committed } plan ∧
    ∀ b, b ∈ plan ↔ b = 0 ∨
      b ∈ growthBlocks i committed ((spanOf offset bytes.length).map direct) allocated

/-- An entry is removed, and its inode is freed unless it is open. -/
structure Removes (s : Volume) (parent k target : Nat) (s' : Volume) : Prop where
  dir : IsDir s.live parent
  lt : k < DIR_SLOTS
  entry : ∃ leaf, slotEntry s.live (s.live.inodes parent) k = some (target, leaf)
  empty : ∀ k', entryOf s.live target k' = none
  result : ∃ now plan, s' = commit { s with
      live := reap s.openRefs (removedImage s.live parent k target now) target } plan ∧
    ∀ b, b ∈ plan ↔ b = 0 ∨ b ∈ unlinkBlocks parent (touchDir (s.live.inodes parent) now) target
        (if s.openRefs target = 0 then releasedInode (unlinkedInode (s.live.inodes target) now)
        else unlinkedInode (s.live.inodes target) now)
        (s.live.inodes target) (decide (s.openRefs target = 0))

/-- An entry gets another name. -/
structure Renames (s : Volume) (parent k target : Nat) (s' : Volume) : Prop where
  lt : k < DIR_SLOTS
  entry : ∃ leaf, slotEntry s.live (s.live.inodes parent) k = some (target, leaf)
  regular : (s.live.inodes target).type = .regular
  result : ∃ leaf now plan, Place s.live parent leaf ∧
    dirLookup s.live (s.live.inodes parent) leaf = none ∧
    s' = commit { s with live := renamedImage s.live parent k leaf target now } plan ∧
    ∀ b, b ∈ plan ↔ b = 0 ∨ b ∈ renameBlocks parent (touchDir (s.live.inodes parent) now) parent
        (touchDir (s.live.inodes parent) now)

/-- An entry moves into another directory. -/
structure Moves (s : Volume) (oldParent src newParent target : Nat) (s' : Volume) : Prop where
  dir : IsDir s.live oldParent
  parents : oldParent ≠ newParent
  lt : src < DIR_SLOTS
  entry : ∃ leaf, slotEntry s.live (s.live.inodes oldParent) src = some (target, leaf)
  regular : (s.live.inodes target).type = .regular
  result : ∃ leaf dst G now plan, Place s.live newParent leaf ∧
    dirLookup s.live (s.live.inodes newParent) leaf = none ∧ SlotRoom s.live newParent dst G ∧
    s' = commit
      { s with live := movedImage G oldParent src newParent dst leaf target now } plan ∧
    ∀ b, b ∈ plan ↔ b = 0 ∨
      b ∈ renameBlocks oldParent (touchDir (s.live.inodes oldParent) now) newParent
        (touchDir (G.inodes newParent) now)

/-- The operations that store times at most. -/
def Op.quiet : Op → Bool
  | .read .. => true
  | .utimens .. => true
  | .sync => true
  | _ => false

/-- The inode that a path names, if it and its directory have the property. -/
def namedTarget (s : Volume) (path : CString) (p : DiskInode → DiskInode → Bool) : Option Nat :=
  match resolveDir s.live path with
  | .error _ => none
  | .ok (parent, leaf) =>
    (dirLookup s.live (s.live.inodes parent) leaf).filter (fun target =>
      p (s.live.inodes parent) (s.live.inodes target))

/-- The inode whose entry an operation removes. -/
def removable (s : Volume) : Op → Option Nat
  | .unlink path uid gid _ =>
    namedTarget s path (fun dir node => permits dir uid gid .write && node.type != .directory)
  | .rmdir path uid gid _ =>
    namedTarget s path (fun dir node =>
      permits dir uid gid .write && node.type == .directory && dirIsEmpty s.live node)
  | _ => none

/-- The inode that an operation returns. -/
def answer (s : Volume) : Op → Option Nat
  | .open_ path flags mode uid gid now => (open_ s path flags mode uid gid now).2.1
  | _ => none

/-- The status, the inode returned and the state after an operation. -/
inductive Effect (s : Volume) : Op → Status → Option Nat → Volume → Prop where
  /-- Nothing changes but an inode that is free. -/
  | failed {op : Op} {status : Status} {L : Image} (hne : status ≠ .success)
      (h : Unchanged s.live L) : Effect s op status none { s with live := L }
  /-- Times change at most. -/
  | quiet {op : Op} {s' : Volume} (hop : op.quiet) (h : Touched s.live s'.live)
      (hrefs : s'.openRefs = s.openRefs) (hopens : s'.opens = s.opens) (hplan : PlanOk s'.plan) :
      Effect s op .success none s'
  /-- An inode is opened; if it was to be cut, it was empty. -/
  | opened {path : CString} {flags : OpenFlags} {mode uid gid now i : Nat}
      (hi : (tree s.live).live i)
      (htrunc : flags.trunc → (s.live.inodes i).size = 0) :
      Effect s (.open_ path flags mode uid gid now) .success (some i) (addRef s i)
  /-- A file is cut to nothing and opened. -/
  | emptied {path : CString} {flags : OpenFlags} {mode uid gid now i : Nat} {s₁ : Volume}
      (hi : (tree s.live).live i) (htrunc : flags.trunc) (h : Truncates s i 0 s₁) :
      Effect s (.open_ path flags mode uid gid now) .success (some i) (addRef s₁ i)
  /-- A file is created and opened. -/
  | created {path : CString} {flags : OpenFlags} {mode uid gid now parent child : Nat}
      {leaf : List UInt8} {s₁ : Volume} (hpath : resolveDir s.live path = .ok (parent, leaf))
      (h : Creates s parent leaf .regular child s₁) :
      Effect s (.open_ path flags mode uid gid now) .success (some child) (addRef s₁ child)
  | made {path : CString} {mode uid gid now parent child : Nat} {leaf : List UInt8} {s' : Volume}
      (hpath : resolveDir s.live path = .ok (parent, leaf))
      (h : Creates s parent leaf .directory child s') :
      Effect s (.mkdir path mode uid gid now) .success none s'
  | closed {i : Nat} : Effect s (.close i) .success none (closeInode s i)
  /-- No bytes are written. -/
  | wroteNothing {i offset uid gid now : Nat} :
      Effect s (.write i offset [] uid gid now) .success none s
  | written {i offset uid gid now : Nat} {bytes : List UInt8} {s' : Volume}
      (h : Writes s i offset bytes s') :
      Effect s (.write i offset bytes uid gid now) .success none s'
  /-- The file has the size already. -/
  | sameSize {i length uid gid now : Nat} (h : (s.live.inodes i).size = length) :
      Effect s (.truncate i length uid gid now) .success none s
  | truncated {i length uid gid now : Nat} {s' : Volume} (h : Truncates s i length s') :
      Effect s (.truncate i length uid gid now) .success none s'
  | unlinked {path : CString} {uid gid now parent k target : Nat} {s' : Volume}
      (hgone : removable s (.unlink path uid gid now) = some target)
      (h : Removes s parent k target s') : Effect s (.unlink path uid gid now) .success none s'
  | removed {path : CString} {uid gid now parent k target : Nat} {s' : Volume}
      (hgone : removable s (.rmdir path uid gid now) = some target)
      (h : Removes s parent k target s') : Effect s (.rmdir path uid gid now) .success none s'
  /-- Both paths are the same. -/
  | unmoved {oldPath newPath : CString} {uid gid now : Nat} :
      Effect s (.rename oldPath newPath uid gid now) .success none s
  | renamed {oldPath newPath : CString} {uid gid now parent k target : Nat} {s' : Volume}
      (h : Renames s parent k target s') :
      Effect s (.rename oldPath newPath uid gid now) .success none s'
  | moved {oldPath newPath : CString} {uid gid now oldParent src newParent target : Nat}
      {s' : Volume}
      (h : Moves s oldParent src newParent target s') :
      Effect s (.rename oldPath newPath uid gid now) .success none s'

/-- A failure that leaves the state as it is. -/
theorem Effect.fail {op : Op} (hne : status ≠ .success) : Effect s op status none s :=
  .failed hne (Unchanged.refl s.live)

/-- The effect of an operation that returns no inode. -/
def Ends (s : Volume) (op : Op) (r : Status × Volume) : Prop := Effect s op r.1 none r.2

/-- The effect of an operation that may return an inode. -/
def Returns (s : Volume) (op : Op) (r : Status × Option Nat × Volume) : Prop :=
  Effect s op r.1 r.2.1 r.2.2

/-! ## §3. Files. -/

theorem truncate_cases (h : Good s) (i length uid gid now : Nat) :
    (∃ status, status ≠ .success ∧ truncate s i length uid gid now = (status, s)) ∨
    ((s.live.inodes i).size = length ∧ truncate s i length uid gid now = (.success, s)) ∨
    ∃ s', Truncates s i length s' ∧ truncate s i length uid gid now = (.success, s') := by
  set node := s.live.inodes i
  generalize hrun : truncate s i length uid gid now = r
  unfold truncate at hrun
  -- The checks one after another.
  split at hrun
  · exact .inl ⟨.noSpace, nofun, hrun.symm⟩
  rename_i hlen
  split at hrun
  · exact .inl ⟨.invalid, nofun, hrun.symm⟩
  rename_i hi
  dsimp only at hrun
  split at hrun
  · exact .inl ⟨.isDirectory, nofun, hrun.symm⟩
  rename_i hreg
  split at hrun
  · exact .inl ⟨.accessDenied, nofun, hrun.symm⟩
  split at hrun
  · rename_i hsize
    exact .inr (.inl ⟨hsize.symm, hrun.symm⟩)
  have hlt : i < INODE_COUNT := Nat.not_le.mp hi
  have hreg : node.type = .regular := not_not.mp hreg
  have hused := h.inUse_regular hlt hreg
  have hlen : length ≤ MAX_FILE_SIZE := Nat.not_lt.mp hlen
  generalize hcommitted : ({ node with
      mtime := now, ctime := now, size := length
      direct := fun d => if keptBlocks length ≤ d ∧ d < DIRECT_BLOCKS then 0
        else node.direct d } : DiskInode) = committed
  have hdirect : ∀ d, committed.direct d = if keptBlocks length ≤ d ∧ d < DIRECT_BLOCKS then 0
      else node.direct d := fun d => by rw [← hcommitted]
  -- The tail and the blocks that are kept are old ones.
  have htail : tailBlock node length ≠ 0 → tailBlock node length ∈ inodeData node := by
    intro hne
    obtain ⟨_, _, hd, heq⟩ := tailBlock_ne_zero hne
    exact mem_inodeData.mpr ⟨hne, _, hd, heq.symm⟩
  have hdata : inodeData committed ⊆ inodeData node := by
    intro b hb
    obtain ⟨hb0, d, hd, rfl⟩ := mem_inodeData.mp hb
    rw [hdirect] at hb0 ⊢
    split at hb0
    · exact absurd rfl hb0
    · rename_i hkeep
      rw [if_neg hkeep]
      exact mem_inodeData.mpr ⟨hb0, d, hd, rfl⟩
  have hold : ∀ b ∈ inodeData node, b < TOTAL_BLOCKS :=
    fun b hb => h.sane.inodeData_lt hused hb
  obtain ⟨plan, heq, hin⟩ := commitBlocks_ok
    { s with live := truncatedImage s.live i length committed }
    (truncateBlocks i committed node (tailBlock node length)
      ((directFrom node (keptBlocks length)).any (· ≠ 0)))
    hlt hlt hold hold
    (by
      unfold truncateBlocks
      intro b hb
      simp only [mem_append, mem_cons] at hb
      rcases hb with (hb | hb) | hb | hb
      · split at hb
        · rename_i hne
          rw [mem_singleton.mp hb]
          exact .inr (.inr (.inl (htail hne)))
        · cases hb
      · exact .inr (.inr (.inl (hdata hb)))
      · exact .inr (.inl (.inl hb))
      · split at hb
        · rw [mem_append, mem_singleton] at hb
          tauto
        · exact absurd hb (by simp))
  refine .inr (.inr ⟨_, ⟨hused, hreg, hlen, committed, plan, now, hcommitted.symm, rfl, hin⟩, ?_⟩)
  rw [← heq, ← hcommitted]
  exact hrun.symm

theorem write_cases (h : Good s) (i offset : Nat) (bytes : List UInt8) (uid gid now : Nat) :
    (∃ status, status ≠ .success ∧ write s i offset bytes uid gid now = (status, s)) ∨
    (bytes = [] ∧ write s i offset bytes uid gid now = (.success, s)) ∨
    ∃ s', Writes s i offset bytes s' ∧ write s i offset bytes uid gid now = (.success, s') := by
  set node := s.live.inodes i
  generalize hrun : write s i offset bytes uid gid now = r
  unfold write at hrun
  -- The checks one after another.
  split at hrun
  · rename_i hnil
    exact .inr (.inl ⟨hnil, hrun.symm⟩)
  rename_i hnil
  split at hrun
  · exact .inl ⟨.noSpace, nofun, hrun.symm⟩
  rename_i hmax
  split at hrun
  · exact .inl ⟨.invalid, nofun, hrun.symm⟩
  rename_i hi
  dsimp only at hrun
  split at hrun
  · exact .inl ⟨.isDirectory, nofun, hrun.symm⟩
  rename_i hreg
  split at hrun
  · exact .inl ⟨.accessDenied, nofun, hrun.symm⟩
  split at hrun
  · exact .inl ⟨.noSpace, nofun, hrun.symm⟩
  split at hrun
  · exact .inl ⟨.noSpace, nofun, hrun.symm⟩
  rename_i hroom
  have hlt : i < INODE_COUNT := Nat.not_le.mp hi
  have hreg : node.type = .regular := not_not.mp hreg
  have hused := h.inUse_regular hlt hreg
  have hmax : offset + bytes.length ≤ MAX_FILE_SIZE := by omega
  have hroom : (spanOf offset bytes.length).countP (fun d => node.direct d == 0) ≤
      bitmapCountFree s.live.dataBitmap DATA_BLOCK_COUNT := by
    by_contra hfull
    exact hroom ⟨Nat.ne_zero_of_lt (Nat.not_le.mp hfull), Nat.not_le.mp hfull⟩
  -- There is room, so the loop reserves what is missing.
  have htidy : Tidy (ownOf (s.live.withDirect i node.direct)) (Marked s.live) := by
    refine h.sane.blocks.congr ?_ (fun _ => Iff.rfl)
    rintro ⟨j, d⟩
    refine ownOf_congr ?_ ?_
    · rfl
    · by_cases hji : j = i
      · subst hji
        rw [withDirect_self]
      · rw [withDirect_of_ne _ hji]
  obtain ⟨img, direct, new, hok, hres, hsame⟩ := reserveBlocks_spec hused
    (spanOf offset bytes.length) (nodup_spanOf ..) (fun d hd => span_lt hnil hmax hd)
    node.direct (fun _ _ hd => hd) htidy hroom []
  generalize hcommitted : ({ node with
      mtime := now, ctime := now, direct := direct
      size := max node.size (offset + bytes.length) } : DiskInode) = committed
  obtain ⟨hsane, _, _⟩ := h.sane.written committed hused hreg hnil hmax hres
    (by rw [← hcommitted]; exact hreg) (by rw [← hcommitted]) (by rw [← hcommitted])
    (by rw [← hcommitted])
  obtain ⟨blocks, himage, _⟩ := writtenImage_eq committed hused hnil hmax hres
  have hself : (writtenImage s.live img i offset bytes direct committed).inodes i = committed := by
    exact Function.update_self ..
  have hused' : InUse (writtenImage s.live img i offset bytes direct committed) i := by
    rw [himage]
    exact hused
  -- The blocks of the span are blocks of the file.
  have hspan : ∀ d ∈ spanOf offset bytes.length, direct d ∈ inodeData committed := by
    intro d hd
    refine mem_inodeData.mpr ⟨reserved_ne_zero hres hd, d, span_lt hnil hmax hd, ?_⟩
    rw [← hcommitted]
  have hdata : ∀ b ∈ inodeData committed, b < TOTAL_BLOCKS :=
    fun b hb => hsane.inodeData_lt hused' (by rw [hself]; exact hb)
  obtain ⟨plan, heq, hin⟩ := commitBlocks_ok
    { s with live := writtenImage s.live img i offset bytes direct committed }
    (growthBlocks i committed ((spanOf offset bytes.length).map direct) (!new.isEmpty))
    hlt hlt hdata hdata
    (by
      unfold growthBlocks
      intro b hb
      simp only [mem_append, mem_cons, not_mem_nil, or_false] at hb
      rcases hb with ((hb | hb) | hb) | hb
      · obtain ⟨d, hd, rfl⟩ := mem_map.mp (mem_filter.mp hb).1
        exact .inr (.inr (.inl (hspan d hd)))
      · exact .inr (.inr (.inl hb))
      · split at hb
        · exact .inl (.inr (mem_singleton.mp hb))
        · cases hb
      · exact .inr (.inl (.inl hb)))
  refine .inr (.inr ⟨_, ⟨hused, hreg, hnil, hmax, img, direct, committed, plan, now,
    !new.isEmpty, hres, fun hnew => hsame ?_, hcommitted.symm, rfl, hin⟩, ?_⟩)
  · simpa using hnew
  · rw [← heq, ← hcommitted, ← hrun]
    unfold spanOf at hok
    rw [hok]
    rfl

/-! ## §4. Names. -/

theorem resolveFrom_error {cur : Nat} {comps : List (List UInt8)}
    (h : resolveFrom img cur comps = .error status) : status ≠ .success := by
  fun_induction resolveFrom img cur comps with
  | case7 _ _ _ _ _ _ _ _ ih => exact ih h
  | case3 => cases h
  | _ =>
    cases h
    exact nofun

theorem resolveParent_error (h : resolveParent img path = .error status) : status ≠ .success := by
  unfold resolveParent at h
  split at h
  · cases h
    exact nofun
  · exact resolveFrom_error h

theorem resolveDir_error (h : resolveDir img path = .error status) : status ≠ .success := by
  unfold resolveDir at h
  split at h
  · rename_i hp
    cases h
    exact resolveParent_error hp
  split at h
  · cases h
    exact nofun
  · cases h

theorem resolveTarget_error (h : resolveTarget img path = .error status) : status ≠ .success := by
  unfold resolveTarget at h
  split at h
  · cases h
    exact nofun
  split at h
  · cases h
  split at h
  · rename_i hd
    cases h
    exact resolveDir_error hd
  split at h
  · cases h
    exact nofun
  · cases h

theorem newInode_fresh {type : InodeType} {linkCount : Nat} (htype : type ≠ .free)
    (hlinks : linkCount ≠ 0) (mode uid gid now : Nat) :
    Fresh (newInode type linkCount mode uid gid now) :=
  ⟨htype, hlinks, rfl, fun _ => rfl⟩

theorem createChild_cases (h : Good s) {parent : Nat} {leaf : List UInt8} {node : DiskInode}
    (hplace : Place s.live parent leaf)
    (hl : dirLookup s.live (s.live.inodes parent) leaf = none) (hnode : Fresh node) (now : Nat) :
    (∃ L, createChild s parent leaf node now = (.noSpace, none, { s with live := L }) ∧
      Unchanged s.live L) ∨ ∃ child s', Creates s parent leaf node.type child s' ∧
      createChild s parent leaf node now = (.success, some child, s') := by
  rcases createChild_spec s now h.sane hplace hl hnode with
    hfail | ⟨child, k, G, plan, hc, hbit, hroom, heq, hin⟩
  · exact .inl hfail
  · exact .inr ⟨child, _, ⟨hplace, hl, hc, hbit, k, G, plan, node, now, hroom, hnode, rfl, rfl,
      hin⟩, heq⟩

theorem openExisting_effect (h : Good s) (path : CString) (flags : OpenFlags)
    (mode uid gid now : Nat) (hi : (tree s.live).live i) :
    Returns s (.open_ path flags mode uid gid now) (openExisting s i flags uid gid now) := by
  unfold openExisting
  rw [if_neg (Nat.not_le.mpr hi.1.1)]
  simp only
  split
  · split
    · exact Effect.fail nofun
    rename_i hflags
    split
    · exact Effect.fail nofun
    refine Effect.opened hi (fun htrunc => absurd ?_ hflags)
    simp [htrunc]
  · generalize (if (flags.wronly || flags.rdwr || flags.trunc) = true then Access.write
      else Access.read) = access
    split
    · exact Effect.fail nofun
    split
    · rename_i htrunc
      rcases truncate_cases h i 0 uid gid now with
        ⟨status, hne, heq⟩ | ⟨hsize, heq⟩ | ⟨s', hcut, heq⟩ <;> rw [heq]
      · cases status with
        | success => exact absurd rfl hne
        | _ => exact Effect.fail nofun
      · exact Effect.opened hi (fun _ => hsize)
      · exact Effect.emptied hi htrunc hcut
    · rename_i htrunc
      exact Effect.opened hi (fun ht => absurd ht htrunc)

theorem open_effect (h : Good s) (path : CString) (flags : OpenFlags) (mode uid gid now : Nat) :
    Returns s (.open_ path flags mode uid gid now) (open_ s path flags mode uid gid now) := by
  unfold open_
  split
  · exact Effect.fail nofun
  split
  · -- The root itself.
    split
    · exact Effect.fail nofun
    rename_i hflags
    split
    · exact Effect.fail nofun
    refine Effect.opened h.sane.root_live (fun htrunc => absurd ?_ hflags)
    simp [htrunc]
  · split
    · rename_i hres
      exact Effect.fail (resolveDir_error hres)
    rename_i parent leaf hres
    have hplace := resolveDir_ok h.sane hres
    simp only
    split
    · rename_i target hl
      obtain ⟨_, _, _, _, hlive, _⟩ := h.sane.lookup_live hplace.dir hl
      exact openExisting_effect h path flags mode uid gid now hlive
    rename_i hl
    split
    · exact Effect.fail nofun
    split
    · exact Effect.fail nofun
    rcases createChild_cases h hplace hl
      (newInode_fresh (by decide : InodeType.regular ≠ .free) Nat.one_ne_zero mode uid gid now) now
      with ⟨L, heq, hL⟩ | ⟨child, s', hcreate, heq⟩ <;> rw [heq]
    · exact Effect.failed nofun hL
    · exact Effect.created hres hcreate

theorem mkdir_effect (h : Good s) (path : CString) (mode uid gid now : Nat) :
    Ends s (.mkdir path mode uid gid now) (mkdir s path mode uid gid now) := by
  unfold mkdir
  split
  · rename_i hres
    exact Effect.fail (resolveDir_error hres)
  rename_i parent leaf hres
  have hplace := resolveDir_ok h.sane hres
  simp only
  split
  · exact Effect.fail nofun
  rename_i hl
  split
  · exact Effect.fail nofun
  have hl : dirLookup s.live (s.live.inodes parent) leaf = none := by
    simpa using hl
  rcases createChild_cases h hplace hl
    (newInode_fresh (by decide : InodeType.directory ≠ .free)
      (by decide : 2 ≠ 0) mode uid gid now) now
    with ⟨L, heq, hL⟩ | ⟨child, s', hcreate, heq⟩ <;> rw [heq]
  · exact Effect.failed nofun hL
  · exact Effect.made hres hcreate

/-- A call failed, or it removed the entry of the inode. -/
def Removal (s : Volume) (gone : Option Nat) (r : Status × Volume) : Prop :=
  (gone = none ∧ ∃ status, status ≠ .success ∧ r = (status, s)) ∨
    ∃ parent k target s', gone = some target ∧ Removes s parent k target s' ∧ r = (.success, s')

theorem Removal.removes {gone : Option Nat} {r : Status × Volume} {target : Nat}
    (h : Removal s gone r) (hgone : gone = some target) :
    ∃ parent k, Removes s parent k target r.2 := by
  subst hgone
  rcases h with ⟨hnone, _⟩ | ⟨parent, k, _, _, hsome, hremove, rfl⟩
  · cases hnone
  · cases hsome
    exact ⟨parent, k, hremove⟩

/-- What `unlink` and `rmdir` do; they differ in what follows. -/
def removal (s : Volume) (path : CString) (uid gid : Nat)
    (last : Nat → List UInt8 → Nat → Status × Volume) : Status × Volume :=
  match resolveDir s.live path with
  | .error status => (status, s)
  | .ok (parent, leaf) =>
    match dirLookup s.live (s.live.inodes parent) leaf with
    | none => (.notFound, s)
    | some target =>
      if !permits (s.live.inodes parent) uid gid .write then (.accessDenied, s)
      else if INODE_COUNT ≤ target then (.ioError, s)
      else last parent leaf target

theorem removal_cases (h : Good s) (path : CString) (uid gid now : Nat) {p : DiskInode → Bool}
    {last : Nat → List UInt8 → Nat → Status × Volume} (hlast : ∀ parent leaf target,
      (p (s.live.inodes target) = false ∧
        ∃ status, status ≠ .success ∧ last parent leaf target = (status, s)) ∨
      p (s.live.inodes target) ∧ last parent leaf target = removeTarget s parent leaf target now)
    (hempty : ∀ i, p (s.live.inodes i) → ∀ k, entryOf s.live i k = none) :
    Removal s (namedTarget s path (fun dir node => permits dir uid gid .write && p node))
      (removal s path uid gid last) := by
  unfold namedTarget removal
  cases hres : resolveDir s.live path with
  | error status => exact .inl ⟨rfl, status, resolveDir_error hres, rfl⟩
  | ok r =>
    obtain ⟨parent, leaf⟩ := r
    have hplace := resolveDir_ok h.sane hres
    dsimp only
    cases hl : dirLookup s.live (s.live.inodes parent) leaf with
    | none => exact .inl ⟨rfl, .notFound, nofun, rfl⟩
    | some target =>
      obtain ⟨k, hfind, hk, he, hlive, _⟩ := h.sane.lookup_live hplace.dir hl
      rw [Option.filter_some]
      dsimp only
      cases permits (s.live.inodes parent) uid gid .write with
      | false => exact .inl ⟨rfl, .accessDenied, nofun, rfl⟩
      | true =>
        simp only [Bool.not_true, Bool.false_eq_true, if_false, if_neg (Nat.not_le.mpr hlive.1.1),
          Bool.true_and]
        rcases hlast parent leaf target with ⟨hp, hfail⟩ | ⟨hp, hrun⟩
        · exact .inl ⟨by rw [hp]; rfl, hfail⟩
        · obtain ⟨plan, heq, hin⟩ :=
            removeTarget_spec s now h.sane hplace.dir hfind hk he (hempty target hp)
          exact .inr ⟨parent, k, target, _, by rw [hp]; rfl,
            ⟨hplace.dir, hk, ⟨leaf, he⟩, hempty target hp, now, plan, rfl, hin⟩, hrun.trans heq⟩

theorem unlink_cases (h : Good s) (path : CString) (uid gid now : Nat) :
    Removal s (removable s (.unlink path uid gid now)) (unlink s path uid gid now) := by
  show Removal s _ (removal s path uid gid fun parent leaf target =>
    if (s.live.inodes target).type = .directory then (.isDirectory, s)
    else removeTarget s parent leaf target now)
  refine removal_cases h path uid gid now (p := (·.type != .directory))
    (fun parent leaf target => ?_) fun i hi k => ?_
  · by_cases hdir : (s.live.inodes target).type = .directory
    · exact .inl ⟨by simp [hdir], .isDirectory, nofun, if_pos hdir⟩
    · exact .inr ⟨by simp [hdir], if_neg hdir⟩
  · exact if_neg (fun hk => bne_iff_ne.mp hi hk.1.2)

theorem rmdir_cases (h : Good s) (path : CString) (uid gid now : Nat) :
    Removal s (removable s (.rmdir path uid gid now)) (rmdir s path uid gid now) := by
  unfold removable
  simp only [Bool.and_assoc]
  show Removal s _ (removal s path uid gid fun parent leaf target =>
    if (s.live.inodes target).type = .regular then (.notDirectory, s)
    else if (s.live.inodes target).type ≠ .directory then (.invalid, s)
    else if !dirIsEmpty s.live (s.live.inodes target) then (.notEmpty, s)
    else removeTarget s parent leaf target now)
  refine removal_cases h path uid gid now
    (p := fun node => node.type == .directory && dirIsEmpty s.live node)
      (fun parent leaf target => ?_) fun i hi k => ?_
  · by_cases hdir : (s.live.inodes target).type = .directory
    · rw [hdir]
      cases dirIsEmpty s.live (s.live.inodes target) with
      | false => exact .inl ⟨rfl, .notEmpty, nofun, rfl⟩
      | true => exact .inr ⟨rfl, rfl⟩
    · refine .inl ⟨by simp [hdir], ?_⟩
      by_cases hreg : (s.live.inodes target).type = .regular
      · exact ⟨.notDirectory, nofun, if_pos hreg⟩
      · exact ⟨.invalid, nofun, (if_neg hreg).trans (if_pos hdir)⟩
  · unfold entryOf
    split
    · rename_i hk
      exact dirIsEmpty_true (Bool.and_eq_true_iff.mp hi).2 hk.2
    · rfl

theorem rename_effect (h : Good s) (oldPath newPath : CString) (uid gid now : Nat) :
    Ends s (.rename oldPath newPath uid gid now) (rename s oldPath newPath uid gid now) := by
  unfold rename
  split
  · exact Effect.fail nofun
  split
  · rename_i hres
    exact Effect.fail (resolveParent_error hres)
  rename_i oldParent oldLeaf hold
  split
  · rename_i hres
    exact Effect.fail (resolveParent_error hres)
  rename_i newParent newLeaf hnew
  simp only
  split
  · exact Effect.unmoved
  split
  · exact Effect.fail nofun
  rename_i hdirs
  rw [not_or, not_not, not_not] at hdirs
  obtain ⟨hlive, hlen, hzero⟩ := resolveParent_ok h.sane hold
  obtain ⟨hlive', hlen', hzero'⟩ := resolveParent_ok h.sane hnew
  have hplace : Place s.live oldParent oldLeaf := ⟨⟨hlive.1, hdirs.1.2⟩, hlive.2, hlen, hzero⟩
  have hplace' : Place s.live newParent newLeaf := ⟨⟨hlive'.1, hdirs.2.2⟩, hlive'.2, hlen', hzero'⟩
  split
  · exact Effect.fail nofun
  rename_i target hl
  split
  · exact Effect.fail nofun
  rename_i hl'
  have hl' : dirLookup s.live (s.live.inodes newParent) newLeaf = none := by simpa using hl'
  split
  · exact Effect.fail nofun
  split
  · exact Effect.fail nofun
  split
  · exact Effect.fail nofun
  split
  · exact Effect.fail nofun
  split
  · exact Effect.fail nofun
  rename_i hreg
  have hreg : (s.live.inodes target).type = .regular := not_not.mp hreg
  obtain ⟨k, hfind, hk, he, _, _⟩ := h.sane.lookup_live hplace.dir hl
  split
  · rename_i hparents
    subst hparents
    obtain ⟨plan, heq, hin⟩ := renameInPlace_spec s now newLeaf target h.sane hplace.dir hfind
    rw [heq]
    exact Effect.renamed ⟨hk, ⟨oldLeaf, he⟩, hreg, newLeaf, now, plan, hplace', hl', rfl, hin⟩
  · rename_i hparents
    rcases renameAcross_spec s now h.sane hplace.dir hplace' hparents hfind hreg with
      heq | ⟨dst, G, plan, hroom, heq, hin⟩ <;> rw [heq]
    · exact Effect.fail nofun
    · exact Effect.moved ⟨hplace.dir, hparents, hk, ⟨oldLeaf, he⟩, hreg, newLeaf, dst, G, now, plan,
        hplace', hl', hroom, rfl, hin⟩

/-! ## §5. Times, and all operations. -/

theorem read_effect (h : Good s) (i offset len now : Nat) :
    Effect s (.read i offset len now) (read s i offset len now).1 none
      (read s i offset len now).2.2 := by
  have hnothing : Effect s (.read i offset len now) .success none s :=
    .quiet rfl (Touched.refl _) rfl rfl h.plan
  unfold read
  split
  · exact hnothing
  split
  · exact .fail nofun
  rename_i hi
  simp only
  split
  · exact .fail nofun
  split
  · exact hnothing
  split
  · exact hnothing
  obtain ⟨plan, heq, hplan⟩ := h.plan.add (Nat.not_le.mp hi)
  rw [heq]
  refine .quiet rfl ?_ rfl rfl hplan
  exact (Touched.refl _).store ⟨rfl, rfl, rfl, rfl, rfl, rfl, rfl⟩

theorem utimens_effect (h : Good s) (path : CString) (atime mtime : TimeChange)
    (uid gid now : Nat) :
    Ends s (.utimens path atime mtime uid gid now) (utimens s path atime mtime uid gid now) := by
  unfold utimens
  split
  · rename_i hres
    exact Effect.fail (resolveTarget_error hres)
  rename_i i hres
  simp only
  split
  · exact Effect.fail nofun
  rename_i hi
  rw [not_or, Nat.not_le] at hi
  split
  · exact Effect.fail nofun
  obtain ⟨plan, heq, hplan⟩ := h.plan.add hi.1
  rw [heq]
  simp only
  generalize hs' : ({ s with
    live := s.live.storeInode i { s.live.inodes i with
      atime := atime.apply (s.live.inodes i).atime now
      mtime := mtime.apply (s.live.inodes i).mtime now, ctime := now }
    plan := plan, pending := true } : Volume) = s'
  obtain ⟨plan', hflush⟩ := hplan.flush (s := s') (by rw [← hs'])
  rw [hflush]
  refine Effect.quiet rfl ?_ ?_ ?_ PlanOk.nil
  · show Touched s.live s'.live
    rw [← hs']
    exact (Touched.refl _).store ⟨rfl, rfl, rfl, rfl, rfl, rfl, rfl⟩
  · show s'.openRefs = _
    rw [← hs']
  · show s'.opens = _
    rw [← hs']

theorem sync_effect (h : Good s) : Effect s .sync (sync s).1 none (sync s).2 := by
  unfold sync
  by_cases hpending : s.pending
  · obtain ⟨plan, heq⟩ := h.plan.flush rfl
    rw [if_pos hpending, heq]
    exact .quiet rfl (Touched.refl _) rfl rfl PlanOk.nil
  · rw [if_neg hpending]
    exact .quiet rfl (Touched.refl _) rfl rfl h.plan

/-- From a good state, every operation ends in one of these ways. -/
theorem exec_effect (h : Good s) (op : Op) :
    Effect s op (exec s op).1 (answer s op) (exec s op).2 := by
  cases op with
  | open_ path flags mode uid gid now => exact open_effect h path flags mode uid gid now
  | close => exact .closed
  | read i offset len now => exact read_effect h i offset len now
  | write i offset bytes uid gid now =>
    show Ends s _ (write s i offset bytes uid gid now)
    rcases write_cases h i offset bytes uid gid now with
      ⟨status, hne, heq⟩ | ⟨rfl, heq⟩ | ⟨s', hwrite, heq⟩ <;> rw [heq]
    · exact .fail hne
    · exact .wroteNothing
    · exact .written hwrite
  | truncate i length uid gid now =>
    show Ends s _ (truncate s i length uid gid now)
    rcases truncate_cases h i length uid gid now with
      ⟨status, hne, heq⟩ | ⟨hsize, heq⟩ | ⟨s', hcut, heq⟩ <;> rw [heq]
    · exact .fail hne
    · exact .sameSize hsize
    · exact .truncated hcut
  | mkdir path mode uid gid now => exact mkdir_effect h path mode uid gid now
  | unlink path uid gid now =>
    show Ends s _ (unlink s path uid gid now)
    rcases unlink_cases h path uid gid now with
      ⟨_, status, hne, heq⟩ | ⟨parent, k, target, s', hgone, hremove, heq⟩ <;> rw [heq]
    · exact .fail hne
    · exact .unlinked hgone hremove
  | rmdir path uid gid now =>
    show Ends s _ (rmdir s path uid gid now)
    rcases rmdir_cases h path uid gid now with
      ⟨_, status, hne, heq⟩ | ⟨parent, k, target, s', hgone, hremove, heq⟩ <;> rw [heq]
    · exact .fail hne
    · exact .removed hgone hremove
  | rename oldPath newPath uid gid now => exact rename_effect h oldPath newPath uid gid now
  | utimens path atime mtime uid gid now => exact utimens_effect h path atime mtime uid gid now
  | sync => exact sync_effect h

end BigOS.Fs.Bigfs
