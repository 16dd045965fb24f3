/-
  BigOS.Fs.Bigfs.Calls — what the calls on names do to the image.

  A path leads to a directory of the tree and a name that fits into an entry.  Entering
  a name takes room in the directory (`SlotRoom`), which may grow for it; creating, removing
  and renaming then end in images that are written out here, and the plan of blocks
  that each of them commits is never too long.

  `Frame` is what a call leaves of an inode it is not about: bit, type and links, and for
  a file everything.

  Main results:
    • `commitBlocks_ok` — a plan that is short enough is committed,
    • `resolveDir_ok` — where paths lead,
    • `dirReserveSlot_spec` — room for an entry,
    • `createChild_spec`, `removeTarget_spec`, `renameInPlace_spec`, `renameAcross_spec`.
-/
import BigOS.Fs.Bigfs.FileData

namespace BigOS.Fs.Bigfs

open BigOS.Lib BigOS.Fs.Journal Function List

variable {img img' G : Image} {s : Volume} {i j c d b k x parent : Nat} {leaf name : List UInt8}

/-! ## §1. Plans. -/

/-- Block after block is added, as long as all of them come from a short list. -/
theorem planAdd_ok (plan blocks all : List Nat) (hplan : plan.Nodup) (hsub : plan ⊆ all)
    (hblocks : blocks ⊆ all) (hlen : all.length ≤ METADATA_COMMIT_BLOCKS_MAX)
    (hlt : ∀ b ∈ all, b < TOTAL_BLOCKS) :
    ∃ plan', planAdd plan blocks = (true, plan') ∧ plan'.Nodup ∧
      ∀ b, b ∈ plan' ↔ b ∈ plan ∨ b ∈ blocks := by
  induction blocks generalizing plan with
  | nil => exact ⟨plan, rfl, hplan, fun b => by simp⟩
  | cons b rest ih =>
    rw [cons_subset] at hblocks
    have hb := hlt b hblocks.1
    by_cases hmem : b ∈ plan
    · -- It is there already.
      have hadd : metadataCommitAdd plan b = some plan := by
        rw [metadataCommitAdd, if_neg (Nat.not_le.mpr hb), if_pos hmem]
      obtain ⟨plan', heq, hnodup, hin⟩ := ih plan hplan hsub hblocks.2
      refine ⟨plan', ?_, hnodup, fun b' => ?_⟩
      · rw [planAdd, hadd]
        exact heq
      · rw [hin b', mem_cons]
        exact ⟨fun h => h.imp_right Or.inr,
          fun h => h.elim .inl (fun h => h.elim (fun heq => .inl (heq ▸ hmem)) Or.inr)⟩
    · have hnodup : (plan ++ [b]).Nodup :=
        nodup_append.mpr ⟨hplan, nodup_singleton b, fun a ha b' hb' =>
          fun heq => hmem (mem_singleton.mp hb' ▸ heq ▸ ha)⟩
      have hsub' : plan ++ [b] ⊆ all :=
        append_subset.mpr ⟨hsub, fun b' hb' => mem_singleton.mp hb' ▸ hblocks.1⟩
      have hcard := (hnodup.subperm hsub').length_le
      rw [length_append, length_singleton] at hcard
      have hadd : metadataCommitAdd plan b = some (plan ++ [b]) := by
        rw [metadataCommitAdd, if_neg (Nat.not_le.mpr hb), if_neg hmem, if_neg (by omega)]
      obtain ⟨plan', heq, hnodup', hin⟩ := ih (plan ++ [b]) hnodup hsub' hblocks.2
      refine ⟨plan', ?_, hnodup', fun b' => ?_⟩
      · rw [planAdd, hadd]
        exact heq
      · rw [hin b', mem_append, mem_singleton, mem_cons, or_assoc]

/-- The state after a plan was committed. -/
def Volume.commit (s : Volume) (plan : List Nat) : Volume :=
  { s with disk := s.disk.copyBlocks s.live plan, plan := [], pending := false }

theorem metadataCommitFlush_ok (hlen : s.plan.length < JOURNAL_MAX_RECORDS) :
    ∃ plan, metadataCommitFlush s = (true, s.commit plan) ∧ ∀ b, b ∈ plan ↔ b = 0 ∨ b ∈ s.plan := by
  have hvals : JOURNAL_MAX_RECORDS = 24 ∧ METADATA_COMMIT_BLOCKS_MAX = 64 := ⟨rfl, rfl⟩
  unfold metadataCommitFlush
  by_cases hmem : 0 ∈ s.plan
  · have hadd : metadataCommitAdd s.plan 0 = some s.plan := by
      rw [metadataCommitAdd, if_neg (by decide), if_pos hmem]
    rw [hadd]
    refine ⟨s.plan, ?_, fun b => ⟨Or.inr, fun h => h.elim (fun heq => heq ▸ hmem) id⟩⟩
    simp only
    rw [if_neg (by omega)]
    rfl
  · have hadd : metadataCommitAdd s.plan 0 = some (s.plan ++ [0]) := by
      rw [metadataCommitAdd, if_neg (by decide), if_neg hmem, if_neg (by omega)]
    rw [hadd]
    refine ⟨s.plan ++ [0], ?_, fun b => ?_⟩
    · simp only
      rw [if_neg (by rw [length_append, length_singleton]; omega)]
      rfl
    · rw [mem_append, mem_singleton, or_comm]

theorem inodeTableBlockNo_lt (hi : i < INODE_COUNT) : inodeTableBlockNo i < TOTAL_BLOCKS := by
  have hvals : INODE_COUNT = 32 ∧ INODE_TABLE_START = 3 ∧ INODES_PER_BLOCK = 4 ∧
      TOTAL_BLOCKS = 256 := ⟨rfl, rfl, rfl, rfl⟩
  unfold inodeTableBlockNo
  rw [hvals.2.2.1]
  omega

theorem length_inodeData (node : DiskInode) : (inodeData node).length ≤ DIRECT_BLOCKS := by
  unfold inodeData
  refine le_trans (length_filter_le ..) ?_
  simp [directFrom]

/-- A plan with bitmaps, the inodes of `i` and `j` and the data of two inodes is committed. -/
theorem commitBlocks_ok (s : Volume) (blocks : List Nat) {i j : Nat} {node dir : DiskInode}
    (hi : i < INODE_COUNT) (hj : j < INODE_COUNT) (hnode : ∀ b ∈ inodeData node, b < TOTAL_BLOCKS)
    (hdir : ∀ b ∈ inodeData dir, b < TOTAL_BLOCKS)
    (hblocks : ∀ b ∈ blocks, (b = INODE_BITMAP_BLOCK ∨ b = DATA_BITMAP_BLOCK) ∨
      (b = inodeTableBlockNo i ∨ b = inodeTableBlockNo j) ∨ b ∈ inodeData node ∨
        b ∈ inodeData dir) : ∃ plan, commitBlocks s blocks = (.success, s.commit plan) ∧
      ∀ b, b ∈ plan ↔ b = 0 ∨ b ∈ blocks := by
  have hvals : DIRECT_BLOCKS = 8 ∧ JOURNAL_MAX_RECORDS = 24 ∧ METADATA_COMMIT_BLOCKS_MAX = 64 :=
    ⟨rfl, rfl, rfl⟩
  -- The blocks are few, so that the plan fits the journal.
  generalize hall : [INODE_BITMAP_BLOCK, DATA_BITMAP_BLOCK] ++
    ([inodeTableBlockNo i, inodeTableBlockNo j] ++ (inodeData node ++ inodeData dir)) = all
  have hin : ∀ b, b ∈ all ↔ (b = INODE_BITMAP_BLOCK ∨ b = DATA_BITMAP_BLOCK) ∨
      (b = inodeTableBlockNo i ∨ b = inodeTableBlockNo j) ∨
        b ∈ inodeData node ∨ b ∈ inodeData dir := by
    simp only [← hall, mem_append, mem_cons, not_mem_nil, or_false, implies_true]
  have hblocks : blocks ⊆ all := fun b hb => (hin b).mpr (hblocks b hb)
  have hlen : all.length < JOURNAL_MAX_RECORDS := by
    have hnode := length_inodeData node
    have hdir := length_inodeData dir
    simp only [← hall, length_append, length_cons, length_nil]
    omega
  have hlt : ∀ b ∈ all, b < TOTAL_BLOCKS := by
    intro b hb
    rcases (hin b).mp hb with (rfl | rfl) | (rfl | rfl) | hb | hb
    · decide
    · decide
    · exact inodeTableBlockNo_lt hi
    · exact inodeTableBlockNo_lt hj
    · exact hnode b hb
    · exact hdir b hb
  obtain ⟨plan, hadd, hnodup, hplan⟩ :=
    planAdd_ok [] blocks all nodup_nil (nil_subset _) hblocks (by omega) hlt
  have hsub : plan ⊆ all := fun b hb => hblocks (((hplan b).mp hb).resolve_left (by simp))
  have hcard := (hnodup.subperm hsub).length_le
  have hflush := metadataCommitFlush_ok
    (s := { s with plan := plan, pending := !plan.isEmpty }) (lt_of_le_of_lt hcard hlen)
  obtain ⟨plan', heq, hin'⟩ := hflush
  refine ⟨plan', ?_, fun b => ?_⟩
  · rw [commitBlocks, hadd]
    simp only
    rw [heq]
    rfl
  · rw [hin' b]
    show b = 0 ∨ b ∈ plan ↔ _
    rw [hplan b]
    simp

theorem mem_inodeData {node : DiskInode} :
    b ∈ inodeData node ↔ b ≠ 0 ∧ ∃ d < DIRECT_BLOCKS, node.direct d = b := by
  unfold inodeData
  rw [mem_filter, mem_directFrom]
  simp [and_comm]

/-- The direct blocks of an inode in use are blocks of the device. -/
theorem Sane.inodeData_lt (h : Sane img) (hi : InUse img i) (hb : b ∈ inodeData (img.inodes i)) :
    b < TOTAL_BLOCKS := by
  obtain ⟨hb0, d, hd, rfl⟩ := mem_inodeData.mp hb
  exact (h.marked hi hd hb0).2.1

/-! ## §2. Paths. -/

theorem mem_components {l w : List UInt8} {a : UInt8} (hw : w ∈ components l) (ha : a ∈ w) :
    a ∈ l := by
  induction l generalizing w with
  | nil => exact absurd hw (by simp [components])
  | cons e rest ih =>
    unfold components at hw
    split at hw
    · exact mem_cons_of_mem _ (ih hw ha)
    -- The byte starts a component of its own or the next one.
    split at hw
    · rename_i heq
      split at hw
      · rcases mem_cons.mp hw with rfl | hw
        · exact mem_cons.mpr (.inl (mem_singleton.mp ha))
        · exact mem_cons_of_mem _ (ih (heq ▸ hw) ha)
      rcases mem_cons.mp hw with rfl | hw
      · rcases mem_cons.mp ha with rfl | ha
        · exact mem_cons_self ..
        · exact mem_cons_of_mem _ (ih (heq ▸ mem_cons_self ..) ha)
      · exact mem_cons_of_mem _ (ih (heq ▸ mem_cons_of_mem _ hw) ha)
    · rcases mem_cons.mp hw with rfl | hw
      · exact mem_cons.mpr (.inl (mem_singleton.mp ha))
      · exact mem_cons_of_mem _ (ih hw ha)

theorem stripMount_subset {l rest : List UInt8} (h : stripMount l = some rest) : rest ⊆ l := by
  unfold stripMount at h
  split at h
  · cases h
  split at h
  · cases h
    exact nil_subset _
  rename_i hdrop
  split at h
  · cases h
    rw [← hdrop]
    exact drop_subset ..
  · cases h

/-- An entry that a directory of the tree has leads to an inode of the tree. -/
theorem Sane.lookup_live (h : Sane img) (hi : IsDir img i)
    (hl : dirLookup img (img.inodes i) name = some c) :
    ∃ k, dirFindSlot img (img.inodes i) name = some k ∧ k < DIR_SLOTS ∧
      slotEntry img (img.inodes i) k = some (c, name) ∧ (Bigfs.tree img).live c ∧
        c ≠ ROOT_INODE := by
  obtain ⟨k, hfind, hk, he⟩ := dirLookup_some hl
  exact ⟨k, hfind, hk, he, h.tree.target i k c name (entryOf_slot hi hk he)⟩

theorem resolveFrom_ok (h : Sane img) {cur : Nat} {comps : List (List UInt8)}
    (hr : resolveFrom img cur comps = .ok (parent, leaf)) (hcur : (tree img).live cur) :
    (tree img).live parent ∧ leaf ∈ comps ∧ leaf.length ≤ DIRENT_NAME_MAX := by
  induction comps generalizing cur with
  | nil => exact absurd hr (by simp [resolveFrom])
  | cons comp rest ih =>
    cases rest with
    | nil =>
      unfold resolveFrom at hr
      split at hr
      · cases hr
      · rename_i hlen
        cases hr
        exact ⟨hcur, mem_singleton.mpr rfl, by omega⟩
    | cons =>
      unfold resolveFrom at hr
      split at hr
      · cases hr
      split at hr
      · cases hr
      rename_i hdir
      rw [not_or, not_not] at hdir
      split at hr
      · cases hr
      · rename_i child hl
        obtain ⟨_, _, _, _, hlive, _⟩ := h.lookup_live ⟨hcur.1, hdir.2⟩ hl
        obtain ⟨hp, hmem, hlen⟩ := ih hr hlive
        exact ⟨hp, mem_cons_of_mem _ hmem, hlen⟩

/-- The root is in the tree. -/
theorem Sane.root_live (h : Sane img) : (Bigfs.tree img).live ROOT_INODE := h.tree.root_live

theorem resolveParent_ok (h : Sane img) {path : CString}
    (hr : resolveParent img path = .ok (parent, leaf)) :
    (tree img).live parent ∧ leaf.length ≤ DIRENT_NAME_MAX ∧ (0 : UInt8) ∉ leaf := by
  unfold resolveParent at hr
  split at hr
  · cases hr
  · rename_i rest hstrip
    obtain ⟨hlive, hmem, hlen⟩ := resolveFrom_ok h hr h.root_live
    refine ⟨hlive, hlen, fun hzero => path.noZero ?_⟩
    exact stripMount_subset hstrip (mem_components hmem hzero)

/-- A directory of the tree, and a name for an entry. -/
structure Place (img : Image) (parent : Nat) (leaf : List UInt8) : Prop where
  dir : IsDir img parent
  links : (img.inodes parent).linkCount ≠ 0
  length : leaf.length ≤ DIRENT_NAME_MAX
  noZero : (0 : UInt8) ∉ leaf

theorem resolveDir_ok (h : Sane img) {path : CString}
    (hr : resolveDir img path = .ok (parent, leaf)) : Place img parent leaf := by
  unfold resolveDir at hr
  split at hr
  · cases hr
  rename_i parent' leaf' hp
  split at hr
  · cases hr
  rename_i hdir
  cases hr
  rw [not_or, not_not] at hdir
  obtain ⟨hlive, hlen, hzero⟩ := resolveParent_ok h hp
  exact ⟨⟨hlive.1, hdir.2⟩, hlive.2, hlen, hzero⟩

/-! ## §3. What a call leaves of an inode it is not about. -/

structure Frame (img img' : Image) (i : Nat) : Prop where
  bit : img'.inodeBitmap i = img.inodeBitmap i
  type : (img'.inodes i).type = (img.inodes i).type
  links : (img'.inodes i).linkCount = 0 ↔ (img.inodes i).linkCount = 0
  file : (img.inodes i).type = .regular → Body img img' i

theorem Kept.frame (h : Kept img img' i) : Frame img img' i :=
  ⟨h.bit, h.type, h.links, fun _ => h.toBody⟩

theorem Frame.trans {img2 : Image} (h : Frame img img' i) (h' : Frame img' img2 i) :
    Frame img img2 i where
  bit := h'.bit.trans h.bit
  type := h'.type.trans h.type
  links := h'.links.trans h.links
  file htype := (h.file htype).trans (h'.file (h.type.trans htype))

theorem Frame.inUse (h : Frame img img' i) : InUse img' i ↔ InUse img i := by
  unfold InUse
  rw [h.bit]

/-- A directory that was and is one. -/
theorem Frame.of_dir (hbit : img'.inodeBitmap i = img.inodeBitmap i) (hdir : IsDir img i)
    (htype : (img'.inodes i).type = .directory)
    (hlinks : (img'.inodes i).linkCount = 0 ↔ (img.inodes i).linkCount = 0) : Frame img img' i :=
  ⟨hbit, htype.trans hdir.2.symm, hlinks, fun hreg => absurd (hdir.2.symm.trans hreg) (by decide)⟩

/-! ## §4. SlotRoom for an entry. -/

/-- `G` is the image with an empty slot `k` in the directory, which has grown if it was
full. -/
structure SlotRoom (img : Image) (i k : Nat) (G : Image) : Prop where
  sane : Sane G
  bits : G.inodeBitmap = img.inodeBitmap
  others : ∀ j, j ≠ i → G.inodes j = img.inodes j
  dir : IsDir G i
  links : (G.inodes i).linkCount = (img.inodes i).linkCount
  lt : k < DIR_SLOTS
  block : slotBlock (G.inodes i) k ≠ 0
  empty : slotEntry G (G.inodes i) k = none
  entries : ∀ j k', entryOf G j k' = entryOf img j k'
  kept : ∀ j < INODE_COUNT, j ≠ i → Kept img G j
  blocks : ∀ b, b ≠ slotBlock (G.inodes i) k → G.blocks b = img.blocks b
  data : G.dataBitmap = img.dataBitmap ↔ (dirFreeSlot img (img.inodes i)).isSome

theorem SlotRoom.frame (h : SlotRoom img i k G) (hi : IsDir img i) (hj : j < INODE_COUNT) :
    Frame img G j := by
  by_cases hji : j = i
  · subst hji
    exact Frame.of_dir (by rw [h.bits]) hi h.dir.2 (by rw [h.links])
  · exact (h.kept j hj hji).frame

/-- The name is as free as it was. -/
theorem SlotRoom.name_free (h : SlotRoom img i k G) (hi : IsDir img i)
    (hl : dirLookup img (img.inodes i) name = none) :
    ∀ k' < DIR_SLOTS, ∀ c', slotEntry G (G.inodes i) k' ≠ some (c', name) := by
  intro k' hk' c' he
  have hentry := h.entries i k'
  rw [entryOf_slot h.dir hk' he] at hentry
  rw [entryOf, if_pos ⟨hi, hk'⟩] at hentry
  exact dirLookup_none hl hk' c' hentry.symm

/-- `dir_reserve_slot` finds room, or there is none. -/
theorem dirReserveSlot_spec (h : Sane img) (hi : IsDir img i) :
    dirReserveSlot img i (img.inodes i) = .error .noSpace ∨
      ∃ k G, dirReserveSlot img i (img.inodes i) = .ok (k, G.inodes i, G) ∧ SlotRoom img i k G := by
  have hvals : DATA_START = 43 ∧ DIRECT_BLOCKS = 8 ∧ DIRENTS_PER_BLOCK = 16 ∧ DIR_SLOTS = 128 :=
    ⟨rfl, rfl, rfl, rfl⟩
  unfold dirReserveSlot
  cases hslot : dirFreeSlot img (img.inodes i) with
  | some k =>
    obtain ⟨hk, hb, he⟩ := dirFreeSlot_some hslot
    exact .inr ⟨k, img, rfl, h, rfl, fun _ _ => rfl, hi, rfl, hk, hb, he, fun _ _ => rfl,
      fun j _ _ => Kept.refl img j, fun _ _ => rfl, by simp [hslot]⟩
  | none =>
    rcases hfind : (List.range DIRECT_BLOCKS).find? (fun d => (img.inodes i).direct d == 0) with
        _ | d
    · exact .inl rfl
    have hd := mem_range.mp (mem_of_find?_eq_some hfind)
    have hzero : (img.inodes i).direct d = 0 := by
      have hp := List.find?_some hfind
      simpa using hp
    unfold allocDataBlock reserveDataBlock
    rcases halloc : bitmapAlloc img.dataBitmap DATA_BLOCK_COUNT with _ | x
    · exact .inl rfl
    -- The directory grows by the block `DATA_START + x`.
    obtain ⟨hx, hfree⟩ := bitmapAlloc_some halloc
    have hself : (growDir img i d x).inodes i = _ := growDir_self
    have hdiv : d * DIRENTS_PER_BLOCK / DIRENTS_PER_BLOCK = d := Nat.mul_div_cancel d (by decide)
    have hblock : slotBlock ((growDir img i d x).inodes i) (d * DIRENTS_PER_BLOCK) =
        DATA_START + x := by
      rw [slotBlock, hdiv, hself]
      exact update_self ..
    refine .inr ⟨d * DIRENTS_PER_BLOCK, growDir img i d x, ?_, ?_⟩
    · rw [hself]
      rfl
    · constructor
      case sane => exact h.grow hi hd hzero hx hfree
      case bits => rfl
      case others => exact fun j hj => growDir_of_ne hj
      case dir =>
        refine ⟨hi.1, ?_⟩
        rw [hself]
        exact hi.2
      case links => rw [hself]
      case lt =>
        rw [hvals.2.2.1, hvals.2.2.2]
        omega
      case block =>
        omega
      case empty =>
        unfold slotEntry
        rw [hblock, growDir_block, direntInode_zero, if_pos (Or.inr rfl)]
      case entries => exact growDir_entries h hi hzero hfree
      case kept => exact fun j hj hji => growDir_kept h hfree hj hji
      case blocks =>
        intro b hb
        rw [hblock] at hb
        exact growDir_block_of_ne hb
      case data =>
        rw [hslot]
        refine ⟨fun heq => ?_, fun hsome => absurd hsome (by simp)⟩
        have hbit : Function.update img.dataBitmap x true x = img.dataBitmap x :=
          congrFun heq x
        rw [update_self, hfree] at hbit
        cases hbit

/-! ## §5. Creating. -/

/-- An inode without blocks, to be linked. -/
structure Fresh (node : DiskInode) : Prop where
  type : node.type ≠ .free
  links : node.linkCount ≠ 0
  size : node.size = 0
  direct : ∀ d, node.direct d = 0

/-- What a call that fails leaves: all but an inode that was and is free. -/
structure Unchanged (img img' : Image) : Prop where
  inodeBitmap : img'.inodeBitmap = img.inodeBitmap
  dataBitmap : img'.dataBitmap = img.dataBitmap
  blocks : img'.blocks = img.blocks
  inodes : ∀ i, InUse img i → img'.inodes i = img.inodes i
  type : ∀ i, (img'.inodes i).type = (img.inodes i).type

theorem Unchanged.refl (img : Image) : Unchanged img img :=
  ⟨rfl, rfl, rfl, fun _ _ => rfl, fun _ => rfl⟩

theorem Unchanged.inUse (h : Unchanged img img') (hi : InUse img' i) : InUse img i :=
  ⟨hi.1, by rw [← h.inodeBitmap]; exact hi.2⟩

theorem Unchanged.frame (h : Unchanged img img') (hi : InUse img i) : Kept img img' i := by
  have hnode := h.inodes i hi
  exact ⟨⟨by rw [h.inodeBitmap], h.type i, by rw [hnode], fun _ _ => by rw [hnode],
    fun _ _ _ _ => by rw [h.blocks]⟩, by rw [hnode]⟩

theorem Unchanged.sane (h : Unchanged img img') (hs : Sane img) : Sane img' := by
  have hused : ∀ j, InUse img' j ↔ InUse img j := fun j => by
    unfold InUse
    rw [h.inodeBitmap]
  refine ⟨?_, ?_, ?_⟩
  · refine hs.tree.congr ?_ ?_ ?_ ?_
    · rfl
    · intro j
      by_cases hj : InUse img j
      · exact (h.frame hj).live
      · exact ⟨fun hl => absurd ((hused j).mp hl.1) hj, fun hl => absurd hl.1 hj⟩
    · exact fun j hj => (h.frame hj.1).dir
    · intro j k
      by_cases hj : InUse img j
      · exact (h.frame hj).entry k
      · show entryOf img' j k = entryOf img j k
        rw [entryOf_of_not_inUse hj, entryOf_of_not_inUse (fun hu => hj ((hused j).mp hu))]
  · refine hs.blocks.congr ?_ ?_
    · rintro ⟨j, d⟩
      by_cases hj : InUse img j
      · exact (h.frame hj).own d
      · rw [ownOf_of_not_inUse hj, ownOf_of_not_inUse (fun hu => hj ((hused j).mp hu))]
    · intro b
      unfold Marked
      rw [h.dataBitmap]
  · intro j hj
    by_cases hu : InUse img j
    · exact (h.frame hu).shape (hs.shape j hj)
    -- A free inode has no shape to keep.
    have hbit : img.inodeBitmap j = false := Bool.not_eq_true _ ▸ fun hb => hu ⟨hj, hb⟩
    have hfree : (img'.inodes j).type = .free := (h.type j).trans ((hs.shape j hj).free.mp hbit)
    have hbit' : img'.inodeBitmap j = false := by rw [h.inodeBitmap, hbit]
    have hreg : (img'.inodes j).type ≠ .regular := by rw [hfree]; decide
    exact ⟨⟨fun _ => hfree, fun _ => hbit'⟩, fun hset => (nomatch hbit'.symm.trans hset),
      fun hr => absurd hr hreg, fun hr => absurd hr hreg, fun hr => absurd hr hreg⟩

/-- The image that `open` with `O_CREAT` and `mkdir` commit. -/
def createdImage (G : Image) (parent k : Nat) (leaf : List UInt8) (child : Nat) (node : DiskInode)
    (now : Nat) : Image :=
  (enterChild G parent k leaf child node).storeInode parent (touchDir (G.inodes parent) now)

theorem touchDir_times (dir : DiskInode) (now : Nat) : TimesOnly dir (touchDir dir now) :=
  ⟨rfl, rfl, rfl, rfl, rfl, rfl, rfl⟩

section Create

variable {child : Nat} {node : DiskInode}

theorem SlotRoom.created (hroom : SlotRoom img parent k G) (now : Nat)
    (hplace : Place img parent leaf)
    (hl : dirLookup img (img.inodes parent) leaf = none) (hc : child < INODE_COUNT)
    (hfree : img.inodeBitmap child = false) (hnode : Fresh node) :
    Sane (createdImage G parent k leaf child node now) ∧
      (∀ j < INODE_COUNT, j ≠ child → Frame img (createdImage G parent k leaf child node now) j) ∧
      InUse (createdImage G parent k leaf child node now) child := by
  set E := enterChild G parent k leaf child node
  have hfree' : G.inodeBitmap child = false := by rw [hroom.bits, hfree]
  have hlinks : (G.inodes parent).linkCount ≠ 0 := by
    rw [hroom.links]
    exact hplace.links
  have henter : Sane E :=
    hroom.sane.enter hroom.dir hlinks hroom.lt hroom.block hroom.empty hc hfree' hplace.length
      hplace.noZero (hroom.name_free hplace.dir hl) hnode.type hnode.links hnode.size hnode.direct
  have hne : parent ≠ child := parent_ne_new hroom.dir hfree'
  have hold : E.inodes parent = G.inodes parent :=
    enterChild_of_ne hne
  have hbit : E.inodeBitmap child := enterChild_bit_self
  have htouch : Touched E
      (createdImage G parent k leaf child node now) :=
    (Touched.refl _).store (by rw [hold]; exact touchDir_times ..)
  refine ⟨htouch.sane henter, fun j hj hjc => Frame.trans ?_ (htouch.kept j).frame, hc, hbit⟩
  by_cases hjp : j = parent
  · subst hjp
    refine Frame.of_dir ?_ hplace.dir (by rw [hold]; exact hroom.dir.2) (by rw [hold, hroom.links])
    rw [enterChild_bit hjc, hroom.bits]
  · exact ((hroom.kept j hj hjp).trans
      (enterChild_kept hroom.sane hroom.dir hroom.lt hj hjp hjc)).frame

/-- The child is stored before the slot is reserved; the order does not matter. -/
theorem dirReserveSlot_child (dir : DiskInode) (hne : parent ≠ child) :
    dirReserveSlot ((img.setInodeBit child true).storeInode child node) parent dir =
      (dirReserveSlot img parent dir).map (fun r =>
        (r.1, r.2.1, (r.2.2.setInodeBit child true).storeInode child node)) := by
  have hslot : dirFreeSlot ((img.setInodeBit child true).storeInode child node) dir =
      dirFreeSlot img dir := rfl
  unfold dirReserveSlot
  rw [hslot]
  cases dirFreeSlot img dir with
  | some => rfl
  | none =>
    rcases (List.range DIRECT_BLOCKS).find? (fun d => dir.direct d == 0) with _ | d
    · rfl
    unfold allocDataBlock reserveDataBlock
    have hbits : ((img.setInodeBit child true).storeInode child node).dataBitmap =
        img.dataBitmap := rfl
    rw [hbits]
    cases bitmapAlloc img.dataBitmap DATA_BLOCK_COUNT with
    | none => rfl
    | some =>
      simp only [Option.map_some, Except.map]
      unfold Image.storeInode Image.setInodeBit Image.setBlock Image.setDataBit
      simp only [update_comm hne]

/-- The inode that could not be entered is given back. -/
theorem unchanged_discard (h : Sane img) (hc : child < INODE_COUNT)
    (hfree : img.inodeBitmap child = false) : Unchanged img
      (discardNewInode ((img.setInodeBit child true).storeInode child node) child) := by
  unfold discardNewInode Image.storeInode Image.setInodeBit
  refine ⟨?_, rfl, rfl, fun i hi => ?_, fun i => ?_⟩
  · show Function.update (Function.update img.inodeBitmap child true) child false = _
    rw [update_idem, ← hfree, update_eq_self]
  · have hic : i ≠ child := fun heq => not_inUse_new hfree (heq ▸ hi)
    show Function.update (Function.update img.inodes child node) child DiskInode.empty i = _
    rw [update_of_ne hic, update_of_ne hic]
  · show (Function.update (Function.update img.inodes child node) child DiskInode.empty i).type = _
    by_cases hic : i = child
    · subst hic
      rw [update_self, (h.shape i hc).free.mp hfree]
      rfl
    · rw [update_of_ne hic, update_of_ne hic]

theorem createChild_spec (s : Volume) (now : Nat) (h : Sane s.live)
    (hplace : Place s.live parent leaf)
    (hl : dirLookup s.live (s.live.inodes parent) leaf = none) (hnode : Fresh node) :
    (∃ L, createChild s parent leaf node now = (.noSpace, none, { s with live := L }) ∧
      Unchanged s.live L) ∨
    ∃ child k G plan, child < INODE_COUNT ∧ s.live.inodeBitmap child = false ∧
      SlotRoom s.live parent k G ∧ createChild s parent leaf node now = (.success, some child,
        Volume.commit { s with live := createdImage G parent k leaf child node now } plan) ∧
      ∀ b, b ∈ plan ↔ b = 0 ∨
        b ∈ fileCreateBlocks parent (touchDir (G.inodes parent) now) child node := by
  unfold createChild
  rcases halloc : bitmapAlloc s.live.inodeBitmap INODE_COUNT with _ | child
  · exact .inl ⟨s.live, rfl, Unchanged.refl _⟩
  obtain ⟨hc, hfree⟩ := bitmapAlloc_some halloc
  have hne : parent ≠ child := parent_ne_new hplace.dir hfree
  simp only
  unfold dirAddEntry
  rw [dirReserveSlot_child _ hne]
  rcases dirReserveSlot_spec h hplace.dir with herr | ⟨k, G, hok, hroom⟩
  · rw [herr]
    exact .inl ⟨_, rfl, unchanged_discard h hc hfree⟩
  rw [hok]
  simp only [Except.map]
  obtain ⟨hsane, hframe, hused⟩ := hroom.created now hplace hl hc hfree hnode
  have hself : (createdImage G parent k leaf child node now).inodes parent =
      touchDir (G.inodes parent) now := update_self ..
  have hparent : InUse (createdImage G parent k leaf child node now) parent :=
    (hframe parent hplace.dir.1.1 hne).inUse.mpr hplace.dir.1
  -- The new inode has no blocks, so at most eleven blocks are committed.
  have hdata : inodeData node = [] := by
    rw [eq_nil_iff_forall_not_mem]
    intro b hb
    obtain ⟨hb0, d, _, rfl⟩ := mem_inodeData.mp hb
    exact hb0 (hnode.direct d)
  have hdirData : ∀ b ∈ inodeData (touchDir (G.inodes parent) now), b < TOTAL_BLOCKS :=
    fun b hb => hsane.inodeData_lt hparent (hself ▸ hb)
  obtain ⟨plan, heq, hin⟩ := commitBlocks_ok
    { s with live := createdImage G parent k leaf child node now }
    (fileCreateBlocks parent (touchDir (G.inodes parent) now) child node)
    hc hplace.dir.1.1 hdirData hdirData
    (by
      rw [fileCreateBlocks, hdata]
      intro b hb
      simp only [nil_append, cons_append, mem_cons, mem_append, not_mem_nil, or_false] at hb
      tauto)
  refine .inr ⟨child, k, G, plan, hc, hfree, hroom, ?_, hin⟩
  have himage : (setSlot ((G.setInodeBit child true).storeInode child node) (G.inodes parent) k
      leaf child).storeInode parent (touchDir (G.inodes parent) now) =
        createdImage G parent k leaf child node now := rfl
  rw [himage, heq]

end Create

end BigOS.Fs.Bigfs
