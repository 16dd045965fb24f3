/-
  BigOS.Fs.Bigfs.WriteSet — the blocks an operation commits.

  Each operation lists the blocks of its transaction by hand.  The list is complete
  if every block outside it holds what it held, times aside: then the device has
  after the commit what the cache has, and a crash loses nothing.

  The lists of `write`, `truncate`, `unlink`, `rmdir` and `rename` are complete.
  `open` and `mkdir` leave out the bitmap of data blocks, which changes when the
  directory of the new name has no empty slot and gets another block.

  Main results:
    • `Covers`, `touched_copyBlocks_iff` — complete lists and what a crash leaves,
    • `Creates.touched_iff` — the lists of `open` and `mkdir`,
    • `committed_write_set_iff` — every operation, in every history.
-/
import BigOS.Fs.Bigfs.Contents

namespace BigOS.Fs.Bigfs

open BigOS.Lib Function Volume List TimesOnly

variable {k parent child target : Nat}

variable {s s' : Volume} {old new : Image} {plan : List Nat} {i now : Nat} {op : Op}
  {leaf : List UInt8}

/-! ## §1. Complete lists. -/

/-- What changed from the one image to the other, times aside, is in blocks of the plan. -/
structure Covers (old new : Image) (plan : List Nat) : Prop where
  inodeBitmap : INODE_BITMAP_BLOCK ∉ plan → new.inodeBitmap = old.inodeBitmap
  dataBitmap : DATA_BITMAP_BLOCK ∉ plan → new.dataBitmap = old.dataBitmap
  blocks : ∀ b, b ∉ plan → new.blocks b = old.blocks b
  inodes : ∀ j, inodeTableBlockNo j ∉ plan → TimesOnly (old.inodes j) (new.inodes j)

/-- A plan is complete exactly if the device has what the cache has, once its blocks are
copied. -/
theorem touched_copyBlocks_iff : Touched (old.copyBlocks new plan) new ↔ Covers old new plan := by
  constructor
  · intro h
    refine ⟨fun hn => ?_, fun hn => ?_, fun b hn => ?_, fun j hn => ?_⟩
    · exact h.inodeBitmap.trans (if_neg hn)
    · exact h.dataBitmap.trans (if_neg hn)
    · exact (congrFun h.blocks b).trans (if_neg hn)
    · have hj : (old.copyBlocks new plan).inodes j = old.inodes j := if_neg hn
      exact hj ▸ h.inodes j
  · intro h
    refine ⟨?_, ?_, ?_, fun j => ?_⟩
    · by_cases hin : INODE_BITMAP_BLOCK ∈ plan
      · exact (if_pos hin).symm
      · exact (h.inodeBitmap hin).trans (if_neg hin).symm
    · by_cases hin : DATA_BITMAP_BLOCK ∈ plan
      · exact (if_pos hin).symm
      · exact (h.dataBitmap hin).trans (if_neg hin).symm
    · funext b
      by_cases hin : b ∈ plan
      · exact (if_pos hin).symm
      · exact (h.blocks b hin).trans (if_neg hin).symm
    · by_cases hin : inodeTableBlockNo j ∈ plan
      · have hj : (old.copyBlocks new plan).inodes j = new.inodes j := if_pos hin
        rw [hj]
        exact refl _
      · have hj : (old.copyBlocks new plan).inodes j = old.inodes j := if_neg hin
        rw [hj]
        exact h.inodes j hin

/-- The state after the commit of a change, on a device that had what the cache had. -/
theorem touched_commit_iff (hclean : s.disk = s.live) :
    Touched (commit { s with live := new } plan).disk
      (commit { s with live := new } plan).live ↔ Covers s.live new plan := by
  rw [← touched_copyBlocks_iff, ← hclean]
  exact Iff.rfl

/-- The commit of a complete list. -/
theorem touched_commit {list : List Nat} (hclean : s.disk = s.live)
    (hin : ∀ b, b ∈ plan ↔ b = 0 ∨ b ∈ list) (h : Covers s.live new list) :
    Touched (commit { s with live := new } plan).disk
      (commit { s with live := new } plan).live := by
  have hout : ∀ {b}, b ∉ plan → b ∉ list := fun hn hb => hn ((hin _).mpr (.inr hb))
  exact (touched_commit_iff hclean).mpr ⟨fun hn => h.inodeBitmap (hout hn),
    fun hn => h.dataBitmap (hout hn), fun b hn => h.blocks b (hout hn),
    fun j hn => h.inodes j (hout hn)⟩

/-- The block of a slot is among the data blocks of its directory. -/
theorem slotBlock_mem {dir : DiskInode} (hk : k < DIR_SLOTS) (hne : slotBlock dir k ≠ 0)
    (now : Nat) : slotBlock dir k ∈ inodeData (touchDir dir now) := by
  refine mem_inodeData.mpr ⟨hne, k / DIRENTS_PER_BLOCK, ?_, rfl⟩
  exact slot_div_lt hk

/-! ## §2. One operation. -/

/-- The list of a create has no block of the bitmap of data blocks. -/
theorem dataBitmap_not_mem {G : Image} {node : DiskInode}
    (hroom : SlotRoom s.live parent k G) (hnode : Fresh node) (hin : ∀ b, b ∈ plan ↔ b = 0 ∨
      b ∈ fileCreateBlocks parent (touchDir (G.inodes parent) now) child node) :
    DATA_BITMAP_BLOCK ∉ plan := by
  have hvals : INODE_BITMAP_BLOCK = 1 ∧ DATA_BITMAP_BLOCK = 2 ∧ INODE_TABLE_START = 3 ∧
      2 < DATA_START := ⟨rfl, rfl, rfl, by decide⟩
  have htable : ∀ j, inodeTableBlockNo j ≠ DATA_BITMAP_BLOCK := by
    intro j
    have hle : INODE_TABLE_START ≤ inodeTableBlockNo j := Nat.le_add_right ..
    omega
  intro hmem
  rcases (hin _).mp hmem with hzero | hlist
  · omega
  unfold fileCreateBlocks at hlist
  simp only [cons_append, append_assoc, mem_cons, mem_append, not_mem_nil, or_false] at hlist
  rcases hlist with hb | hb | hb | hb | hb
  · omega
  · obtain ⟨hne, d, _, heq⟩ := mem_inodeData.mp hb
    exact hne (heq.symm.trans (hnode.direct d))
  · exact htable _ hb.symm
  · -- The blocks of the directory are data blocks.
    obtain ⟨hne, d, hd, heq⟩ := mem_inodeData.mp hb
    have hdir : (G.inodes parent).direct d = DATA_BITMAP_BLOCK := heq
    have hmark := hroom.sane.marked hroom.dir.1 hd (by rw [hdir]; exact hne)
    have hle : DATA_START ≤ (G.inodes parent).direct d := hmark.1
    omega
  · exact htable _ hb.symm

/-- A create is complete unless the directory grows. -/
theorem Creates.touched_iff {type : InodeType}
    (h : Creates s parent leaf type child s') (hclean : s.disk = s.live) :
    Touched s'.disk s'.live ↔ (dirFreeSlot s.live (s.live.inodes parent)).isSome := by
  obtain ⟨k, G, plan, node, now, hroom, hnode, _, rfl, hin⟩ := h.result
  rw [← hroom.data]
  constructor
  · intro htouched
    exact ((touched_commit_iff hclean).mp htouched).dataBitmap (dataBitmap_not_mem hroom hnode hin)
  · intro hdata
    refine touched_commit hclean hin ⟨fun hn => ?_, fun _ => hdata, fun b hn => ?_, fun j hn => ?_⟩
    · simp [fileCreateBlocks] at hn
    · have hslot : b ≠ slotBlock (G.inodes parent) k := by
        rintro rfl
        simp [fileCreateBlocks, slotBlock_mem hroom.lt hroom.block now] at hn
      exact (enterChild_block hslot).trans (hroom.blocks b hslot)
    · have hchild : j ≠ child := by
        rintro rfl
        simp [fileCreateBlocks] at hn
      have hparent : j ≠ parent := by
        rintro rfl
        simp [fileCreateBlocks] at hn
      have hj : (createdImage G parent k leaf child node now).inodes j = s.live.inodes j :=
        (update_of_ne hparent ..).trans ((enterChild_of_ne hchild).trans (hroom.others j hparent))
      rw [hj]
      exact refl _

theorem Truncates.touched {length : Nat} (h : Truncates s i length s') (hclean : s.disk = s.live) :
    Touched s'.disk s'.live := by
  obtain ⟨committed, plan, now, _, rfl, hin⟩ := h.result
  obtain ⟨bitmap, blocks, himage, hbits, hblocks, _⟩ := truncatedImage_eq s.live i length committed
  rw [himage]
  refine touched_commit hclean hin ⟨fun _ => rfl, fun hn => ?_, fun b hn => ?_, fun j hn => ?_⟩
  · -- The bitmap is not in the plan: no block was given back.
    have hnone : ¬(directFrom (s.live.inodes i) (keptBlocks length)).any (· ≠ 0) := by
      intro hany
      rw [hany] at hn
      simp [truncateBlocks] at hn
    funext x
    have hx := hbits x
    rw [Bool.eq_iff_iff, hx]
    refine ⟨fun hb => hb.1, fun hb => ⟨hb, fun b hmem hne => ?_⟩⟩
    exact absurd (any_eq_true.mpr ⟨b, hmem, by simpa using hne⟩) hnone
  · refine hblocks b ?_
    by_contra hb
    have htail : b = tailBlock (s.live.inodes i) length ∧ b ≠ 0 := by
      push Not at hb
      exact hb
    have hne : tailBlock (s.live.inodes i) length ≠ 0 := htail.1 ▸ htail.2
    simp [truncateBlocks, hne, htail.1] at hn
  · have hji : j ≠ i := by
      rintro rfl
      simp [truncateBlocks] at hn
    show TimesOnly _ (Function.update s.live.inodes i committed j)
    rw [update_of_ne hji]
    exact refl _

theorem Writes.touched {offset : Nat} {bytes : List UInt8} (h : Writes s i offset bytes s')
    (hclean : s.disk = s.live) : Touched s'.disk s'.live := by
  obtain ⟨img, direct, committed, plan, now, allocated, hres, hnone, _, rfl, hin⟩ := h.result
  obtain ⟨blocks, himage, _, hblocks⟩ := writtenImage_eq committed h.inUse h.nonempty h.size hres
  rw [himage]
  refine touched_commit hclean hin ⟨fun _ => rfl, fun hn => ?_, fun b hn => ?_, fun j hn => ?_⟩
  · have hall : allocated = false := by
      rw [← Bool.not_eq_true]
      intro hall
      simp [growthBlocks, hall] at hn
    rw [hnone hall]
  · refine hblocks b (fun hmem => ?_)
    obtain ⟨d, hd, rfl⟩ := mem_map.mp hmem
    have hne : direct d ≠ 0 := reserved_ne_zero hres hd
    have hspan : direct d ∈ ((spanOf offset bytes.length).map direct).filter (· ≠ 0) :=
      mem_filter.mpr ⟨hmem, by simpa using hne⟩
    unfold growthBlocks at hn
    simp only [mem_append] at hn
    exact hn (.inl (.inl (.inl hspan)))
  · have hji : j ≠ i := by
      rintro rfl
      simp [growthBlocks] at hn
    show TimesOnly _ (Function.update s.live.inodes i committed j)
    rw [update_of_ne hji]
    exact refl _

theorem Removes.touched (h : Removes s parent k target s') (hclean : s.disk = s.live) :
    Touched s'.disk s'.live := by
  obtain ⟨now, plan, rfl, hin⟩ := h.result
  obtain ⟨leaf, he⟩ := h.entry
  refine touched_commit hclean hin ?_
  generalize hlist : unlinkBlocks _ _ _ _ _ _ = list
  have hslot : ∀ b, b ∉ list →
      (removedImage s.live parent k target now).blocks b = s.live.blocks b := by
    intro b hn
    refine detachChild_block ?_
    rintro rfl
    simp [← hlist, unlinkBlocks, slotBlock_mem h.lt (slotEntry_some he).1 now] at hn
  have hinodes : ∀ j, inodeTableBlockNo j ∉ list → j ≠ parent ∧ j ≠ target := by
    intro j hn
    constructor
    · rintro rfl
      simp [← hlist, unlinkBlocks] at hn
    · rintro rfl
      simp [← hlist, unlinkBlocks] at hn
  have hothers : ∀ j, inodeTableBlockNo j ∉ list →
      (removedImage s.live parent k target now).inodes j = s.live.inodes j := by
    intro j hn
    obtain ⟨hparent, htarget⟩ := hinodes j hn
    exact (update_of_ne hparent ..).trans (detachChild_of_ne htarget)
  by_cases hrefs : s.openRefs target = 0
  · -- The inode and its blocks are freed, and both bitmaps are in the plan.
    have hbits : DATA_BITMAP_BLOCK ∈ list ∧ INODE_BITMAP_BLOCK ∈ list := by
      simp [← hlist, unlinkBlocks, hrefs]
    rw [reap, if_pos hrefs]
    obtain ⟨hblocks, hnodes, _⟩ := freeInode_fields (removedImage s.live parent k target now) target
    refine ⟨fun hn => absurd hbits.2 hn, fun hn => absurd hbits.1 hn, fun b hn => ?_,
      fun j hn => ?_⟩
    · rw [hblocks]
      exact hslot b hn
    · rw [hnodes, update_of_ne (hinodes j hn).2, hothers j hn]
      exact refl _
  · rw [reap, if_neg hrefs]
    refine ⟨fun _ => rfl, fun _ => rfl, hslot, fun j hn => ?_⟩
    rw [hothers j hn]
    exact refl _

theorem Renames.touched (h : Renames s parent k target s') (hclean : s.disk = s.live) :
    Touched s'.disk s'.live := by
  obtain ⟨leaf, now, plan, _, _, rfl, hin⟩ := h.result
  obtain ⟨oldLeaf, he⟩ := h.entry
  refine touched_commit hclean hin ⟨fun _ => rfl, fun _ => rfl, fun b hn => ?_, fun j _ => ?_⟩
  · have hslot : b ≠ slotBlock (s.live.inodes parent) k := by
      rintro rfl
      simp [renameBlocks, slotBlock_mem h.lt (slotEntry_some he).1 now] at hn
    exact setSlot_blocks_of_ne hslot leaf target
  · -- Neither inode changes but for its times.
    show TimesOnly _ (Function.update (Function.update s.live.inodes target _) parent _ j)
    by_cases hparent : j = parent
    · subst hparent
      rw [update_self]
      exact touchDir_times _ _
    rw [update_of_ne hparent]
    by_cases htarget : j = target
    · subst htarget
      rw [update_self]
      exact renamedInode_times _ _
    · rw [update_of_ne htarget]
      exact refl _

theorem Moves.touched {oldParent src newParent : Nat}
    (h : Moves s oldParent src newParent target s') (hclean : s.disk = s.live) :
    Touched s'.disk s'.live := by
  obtain ⟨leaf, dst, G, now, plan, _, _, hroom, rfl, hin⟩ := h.result
  obtain ⟨oldLeaf, he⟩ := h.entry
  have hold : G.inodes oldParent = s.live.inodes oldParent := hroom.others _ h.parents
  refine touched_commit hclean hin
    ⟨fun _ => hroom.bits, fun hn => ?_, fun b hn => ?_, fun j hn => ?_⟩
  · simp [renameBlocks, h.parents] at hn
  · have hdst : b ≠ slotBlock (G.inodes newParent) dst := by
      rintro rfl
      simp [renameBlocks, slotBlock_mem hroom.lt hroom.block now] at hn
    have hsrc : b ≠ slotBlock (G.inodes oldParent) src := by
      rintro rfl
      rw [hold] at hn
      simp [renameBlocks, slotBlock_mem h.lt (slotEntry_some he).1 now] at hn
    exact (clearSlot_blocks_of_ne hsrc).trans
      ((setSlot_blocks_of_ne hdst leaf target).trans (hroom.blocks b hdst))
  · have hparents : j ≠ oldParent ∧ j ≠ newParent := by
      constructor
      · rintro rfl
        simp [renameBlocks] at hn
      · rintro rfl
        simp [renameBlocks] at hn
    show TimesOnly _ (Function.update (Function.update (Function.update G.inodes target _)
      oldParent _) newParent _ j)
    rw [update_of_ne hparents.2, update_of_ne hparents.1]
    rw [← hroom.others j hparents.2]
    by_cases htarget : j = target
    · subst htarget
      rw [update_self]
      exact renamedInode_times _ _
    · rw [update_of_ne htarget]
      exact refl _

/-! ## §3. Histories. -/

/-- The operations that change more than times. -/
def Op.mutating : Op → Bool
  | .open_ _ flags _ _ _ _ => flags.creat || flags.trunc
  | .write .. => true
  | .truncate .. => true
  | .mkdir .. => true
  | .unlink .. => true
  | .rmdir .. => true
  | .rename .. => true
  | _ => false

/-- The path is of a new name in a directory that has no empty slot. -/
def inFullDirectory (img : Image) (path : CString) : Bool :=
  match resolveDir img path with
  | .error _ => false
  | .ok (parent, leaf) =>
    (dirLookup img (img.inodes parent) leaf).isNone &&
      (dirFreeSlot img (img.inodes parent)).isNone

/-- The operation makes an object in a directory that has to grow for it. -/
def growsDirectory (s : Volume) : Op → Bool
  | .open_ path _ _ _ _ _ => inFullDirectory s.live path
  | .mkdir path _ _ _ _ => inFullDirectory s.live path
  | _ => false

theorem Creates.inFullDirectory_iff {path : CString} {type : InodeType}
    (hpath : resolveDir s.live path = .ok (parent, leaf)) (h : Creates s parent leaf type child s')
    (hclean : s.disk = s.live) : Touched s'.disk s'.live ↔ inFullDirectory s.live path = false := by
  rw [h.touched_iff hclean, inFullDirectory, hpath]
  simp only [h.lookup, Option.isNone_none, Bool.true_and]
  cases dirFreeSlot s.live (s.live.inodes parent) with
  | none => simp
  | some => simp

/-- An `open` that returns an inode that was there is not of a new name. -/
theorem open_existing_name (h : Good s) {path : CString} {flags : OpenFlags}
    {mode uid gid : Nat} (hi : InUse s.live i)
    (hret : (open_ s path flags mode uid gid now).2.1 = some i) :
    inFullDirectory s.live path = false := by
  cases hres : resolveDir s.live path with
  | error => rw [inFullDirectory, hres]
  | ok r =>
    obtain ⟨parent, leaf⟩ := r
    cases hl : dirLookup s.live (s.live.inodes parent) leaf with
    | some =>
      rw [inFullDirectory, hres]
      simp [hl]
    | none =>
      -- The name is new: the inode that is returned was free.
      exfalso
      have hplace := resolveDir_ok h.sane hres
      unfold open_ at hret
      split at hret
      · cases hret
      rename_i rest hstrip
      split at hret
      · rename_i hroot
        have herr : resolveDir s.live path = .error .invalid := by
          rw [resolveDir, resolveParent, hstrip]
          simp only [hroot, resolveFrom]
        cases herr.symm.trans hres
      · simp only [hres, hl] at hret
        split at hret
        · cases hret
        split at hret
        · cases hret
        rcases createChild_cases h hplace hl
          (newInode_fresh (by decide : InodeType.regular ≠ .free) Nat.one_ne_zero mode uid
            gid now) now with ⟨L, heq, _⟩ | ⟨child, s1, hcreate, heq⟩ <;> rw [heq] at hret
        · cases hret
        · have hchild : child = i := Option.some.inj hret
          exact not_inUse_new hcreate.bit (hchild ▸ hi)

theorem Effect.touched_iff {ret : Option Nat} (he : Effect s op .success ret s')
    (hclean : s.disk = s.live) (hmut : op.mutating)
    (hname : ∀ i, ret = some i → InUse s.live i → growsDirectory s op = false) :
    Touched s'.disk s'.live ↔ growsDirectory s op = false := by
  have hsame : Touched s.disk s.live := hclean ▸ Touched.refl s.disk
  cases he with
  | failed hne => exact absurd rfl hne
  | quiet hop =>
    -- No operation that stores times only is one of the mutating ones.
    exfalso
    cases op with
    | read => cases hmut
    | utimens => cases hmut
    | sync => cases hmut
    | _ => cases hop
  | opened hi => exact iff_of_true hsame (hname _ rfl hi.1)
  | emptied hi _ hcut => exact iff_of_true (hcut.touched hclean) (hname _ rfl hi.1)
  | @created _ _ _ _ _ _ _ _ _ s1 hpath hcreate =>
    show Touched s1.disk s1.live ↔ _
    exact hcreate.inFullDirectory_iff hpath hclean
  | made hpath hcreate => exact hcreate.inFullDirectory_iff hpath hclean
  | closed => cases hmut
  | wroteNothing => exact iff_of_true hsame rfl
  | written hwrite => exact iff_of_true (hwrite.touched hclean) rfl
  | sameSize => exact iff_of_true hsame rfl
  | truncated hcut => exact iff_of_true (hcut.touched hclean) rfl
  | unlinked _ hremove => exact iff_of_true (hremove.touched hclean) rfl
  | removed _ hremove => exact iff_of_true (hremove.touched hclean) rfl
  | unmoved => exact iff_of_true hsame rfl
  | renamed hrename => exact iff_of_true (hrename.touched hclean) rfl
  | moved hmove => exact iff_of_true (hmove.touched hclean) rfl

/-- The blocks that an operation commits are all it changed, unless it makes an object
in a directory that grows. -/
theorem committed_write_set_iff (now : Nat) (ops : List Op) (op : Op) (hmut : op.mutating = true)
    (hclean : (runOps (format now) ops).disk = (runOps (format now) ops).live)
    (hok : (exec (runOps (format now) ops) op).1 = .success) :
    Touched (step (runOps (format now) ops) op).disk (step (runOps (format now) ops) op).live ↔
      growsDirectory (runOps (format now) ops) op = false := by
  have hgood := runOps_good now ops
  have he := exec_effect hgood op
  rw [hok] at he
  refine he.touched_iff hclean hmut (fun i hret hi => ?_)
  cases op with
  | open_ => exact open_existing_name hgood hi hret
  | mkdir => cases hret
  | _ => rfl

/-- The file `/rw/a` is made, and written in the block that its directory has then. -/
theorem committed_write_set_iff_write :
    (runOps (format 0) [.open_ pathA ⟨false, true, true, false⟩ 420 0 0 1, .sync]).disk =
      (runOps (format 0) [.open_ pathA ⟨false, true, true, false⟩ 420 0 0 1, .sync]).live ∧
    Touched (step (runOps (format 0)
        [.open_ pathA ⟨false, true, true, false⟩ 420 0 0 1, .sync]) (.write 1 0 [7] 0 0 2)).disk
      (step (runOps (format 0) [.open_ pathA ⟨false, true, true, false⟩ 420 0 0 1, .sync])
          (.write 1 0 [7] 0 0 2)).live := by
  have hclean : (runOps (format 0)
        [.open_ pathA ⟨false, true, true, false⟩ 420 0 0 1, .sync]).disk =
      (runOps (format 0) [.open_ pathA ⟨false, true, true, false⟩ 420 0 0 1, .sync]).live := rfl
  refine ⟨hclean, ?_⟩
  exact (committed_write_set_iff 0 [.open_ pathA ⟨false, true, true, false⟩ 420 0 0 1, .sync]
    (.write 1 0 [7] 0 0 2) rfl hclean (by decide +kernel)).mpr rfl

/-- The first file of a fresh volume: its directory gets a block whose bit stays clear on
the device, and the check at the next mount fails. -/
theorem first_create_omits_data_bitmap :
    (exec (format 0) (.open_ pathA ⟨false, true, true, false⟩ 420 0 0 1)).1 = .success ∧
    (step (format 0) (.open_ pathA ⟨false, true, true, false⟩ 420 0 0 1)).live.dataBitmap 0 = true ∧
    (step (format 0) (.open_ pathA ⟨false, true, true, false⟩ 420 0 0 1)).disk.dataBitmap 0 =
      false ∧ validateMetadataInvariants
      (step (format 0) (.open_ pathA ⟨false, true, true, false⟩ 420 0 0 1)).disk = .invalid := by
  decide +kernel

end BigOS.Fs.Bigfs
