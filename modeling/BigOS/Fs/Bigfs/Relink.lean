/-
  BigOS.Fs.Bigfs.Relink — removing and renaming.

  `unlink` and `rmdir` take the entry and the links of an inode and free it unless it
  is open; `close_inode` frees it then.  `rename` gives the entry of a file another
  name, in the same directory or in another one.

  Main results:
    • `Sane.removed`, `Sane.reaped`, `Sane.renamed`, `SlotRoom.moved` — the images,
    • `removeTarget_spec`, `closeInode_spec`, `renameInPlace_spec`, `renameAcross_spec`.
-/
import BigOS.Fs.Bigfs.Calls

namespace BigOS.Fs.Bigfs

open BigOS.Lib BigOS.Fs.Journal Function List

variable {img : Image} {s : Volume} {i j c d b k : Nat}

/-! ## §1. Freeing what is not linked. -/

/-- The image after `maybe_free_unlinked_inode` of an inode without links. -/
def reap (openRefs : Nat → Nat) (img : Image) (c : Nat) : Image :=
  if openRefs c = 0 then freeInode img c else img

theorem maybeFree_eq (s : Volume) (hc : c < INODE_COUNT) (hroot : c ≠ ROOT_INODE)
    (htype : (s.live.inodes c).type ≠ .free) (hlinks : (s.live.inodes c).linkCount = 0) :
    maybeFreeUnlinkedInode s c (s.live.inodes c) =
      (if s.openRefs c = 0 then releasedInode (s.live.inodes c) else s.live.inodes c,
        { s with live := reap s.openRefs s.live c }) := by
  unfold maybeFreeUnlinkedInode reap
  rw [if_neg (not_or.mpr ⟨hroot, Nat.not_le.mpr hc⟩)]
  by_cases hrefs : s.openRefs c = 0
  · rw [if_neg (by simp [htype, hlinks, hrefs]), if_pos hrefs, if_pos hrefs]
    rfl
  · rw [if_pos (Or.inr (.inr hrefs)), if_neg hrefs, if_neg hrefs]

theorem Sane.reaped (h : Sane img) (refs : Nat → Nat) (hc : InUse img c)
    (hlinks : (img.inodes c).linkCount = 0) :
    Sane (reap refs img c) ∧ (∀ j, j ≠ c → Kept img (reap refs img c) j) ∧
      (refs c ≠ 0 → Kept img (reap refs img c) c) ∧ (refs c = 0 → ¬InUse (reap refs img c) c) := by
  unfold reap
  by_cases hrefs : refs c = 0
  · rw [if_pos hrefs]
    exact ⟨h.free hc hlinks, fun j hj => freeInode_kept hj, fun hne => absurd hrefs hne,
      fun _ => not_inUse_freeInode⟩
  · rw [if_neg hrefs]
    exact ⟨h, fun j _ => Kept.refl img j, fun _ => Kept.refl img c, fun hz => absurd hz hrefs⟩

/-! ## §2. Removing an entry. -/

/-- The target as `unlink` and `rmdir` store it. -/
def unlinkedInode (old : DiskInode) (now : Nat) : DiskInode :=
  { old with linkCount := 0, ctime := now }

/-- The image without the entry. -/
def removedImage (img : Image) (parent k target now : Nat) : Image :=
  (detachChild img parent k target (unlinkedInode (img.inodes target) now)).storeInode parent
    (touchDir (img.inodes parent) now)

section Remove

variable {parent target : Nat} {leaf : List UInt8}

theorem removedImage_target {now : Nat} (hne : parent ≠ target) :
    (removedImage img parent k target now).inodes target = unlinkedInode (img.inodes target) now :=
  (update_of_ne hne.symm ..).trans detachChild_self

theorem Sane.removed (h : Sane img) (now : Nat) (hdir : IsDir img parent) (hk : k < DIR_SLOTS)
    (he : slotEntry img (img.inodes parent) k = some (target, leaf))
    (hempty : ∀ k', entryOf img target k' = none) : Sane (removedImage img parent k target now) ∧
      (∀ j < INODE_COUNT, j ≠ target → Frame img (removedImage img parent k target now) j) ∧
      Body img (removedImage img parent k target now) target := by
  set cut := detachChild img parent k target (unlinkedInode (img.inodes target) now)
  have hne : parent ≠ target := parent_ne_child hdir hk he hempty
  have hlive := (h.tree.target parent k target leaf (entryOf_slot hdir hk he)).1
  have hold : cut.inodes parent = img.inodes parent := detachChild_of_ne hne
  have hdetach : Sane cut := h.detach hdir hk he hempty rfl rfl rfl (fun _ _ => rfl)
  have htouch : Touched cut (removedImage img parent k target now) :=
    (Touched.refl _).store (by rw [hold]; exact touchDir_times ..)
  refine ⟨htouch.sane hdetach, fun j hj hjt => Frame.trans ?_ (htouch.kept j).frame, ?_⟩
  · by_cases hjp : j = parent
    · subst hjp
      exact Frame.of_dir rfl hdir (by rw [hold]; exact hdir.2) (by rw [hold])
    · exact (detachChild_kept h hdir hk hj hjp hjt).frame
  · refine Body.trans ?_ (htouch.kept target).toBody
    exact detachChild_body h hdir hk he hempty rfl rfl (fun _ _ => rfl) hlive.1.1

/-- `unlink` and `rmdir`, once the target is known to be removable. -/
theorem removeTarget_spec (s : Volume) (now : Nat) (h : Sane s.live) (hdir : IsDir s.live parent)
    (hfind : dirFindSlot s.live (s.live.inodes parent) leaf = some k) (hk : k < DIR_SLOTS)
    (he : slotEntry s.live (s.live.inodes parent) k = some (target, leaf))
    (hempty : ∀ k', entryOf s.live target k' = none) :
    ∃ plan, removeTarget s parent leaf target now = (.success, Volume.commit { s with
          live := reap s.openRefs (removedImage s.live parent k target now) target } plan) ∧
      ∀ b, b ∈ plan ↔ b = 0 ∨ b ∈ unlinkBlocks parent (touchDir (s.live.inodes parent) now) target
          (if s.openRefs target = 0 then releasedInode (unlinkedInode (s.live.inodes target) now)
          else unlinkedInode (s.live.inodes target) now)
          (s.live.inodes target) (decide (s.openRefs target = 0)) := by
  set dir := s.live.inodes parent
  set old := s.live.inodes target
  set gone := unlinkedInode old now
  have hne : parent ≠ target := parent_ne_child hdir hk he hempty
  obtain ⟨hlive, hroot⟩ := h.tree.target parent k target leaf (entryOf_slot hdir hk he)
  have hself : (removedImage s.live parent k target now).inodes target =
      gone := removedImage_target hne
  have htype : old.type ≠ .free := by
    intro hfree
    have hbit := (h.shape target hlive.1.1).free.mpr hfree
    cases hbit.symm.trans hlive.1.2
  -- The search is not disturbed by the inode that was stored.
  have hremove : dirRemoveEntry (s.live.storeInode target gone)
      dir leaf = some (detachChild s.live parent k target gone) := by
    have hsame : dirFindSlot (s.live.storeInode target gone)
        dir leaf = dirFindSlot s.live dir leaf := rfl
    rw [dirRemoveEntry, hsame, hfind]
    rfl
  have hfree := maybeFree_eq { s with live := removedImage s.live parent k target now } hlive.1.1
    hroot (by rw [hself]; exact htype) (by rw [hself]; rfl)
  rw [hself] at hfree
  have hreleased : ((if s.openRefs target = 0 then
        releasedInode gone
      else gone).type == .free) = decide (s.openRefs target = 0) := by
    split
    · rename_i hz
      rw [decide_eq_true hz]
      rfl
    · rename_i hz
      rw [decide_eq_false hz]
      exact beq_eq_false_iff_ne.mpr htype
  generalize hnode : (if s.openRefs target = 0 then
      releasedInode gone
    else gone) = node at hfree hreleased ⊢
  -- What is left of the target has no blocks that it did not have.
  have hdata : inodeData node ⊆ inodeData old := by
    intro b hb
    obtain ⟨hb0, d, hd, rfl⟩ := mem_inodeData.mp hb
    subst hnode
    split at hb0
    · exact absurd (if_pos hd) hb0
    · rw [if_neg ‹_›]
      exact mem_inodeData.mpr ⟨hb0, d, hd, rfl⟩
  have hparentData : ∀ b ∈ inodeData (touchDir dir now), b < TOTAL_BLOCKS :=
    fun b hb => h.inodeData_lt hdir.1 hb
  obtain ⟨plan, heq, hin⟩ := commitBlocks_ok
    { s with live := reap s.openRefs (removedImage s.live parent k target now) target }
    (unlinkBlocks parent (touchDir dir now) target node old
      (decide (s.openRefs target = 0)))
    hdir.1.1 hlive.1.1 hparentData (fun _ hb => h.inodeData_lt hlive.1 hb)
    (by
      unfold unlinkBlocks
      intro b hb
      have hlast : b ∈ (if decide (s.openRefs target = 0) = true then
          [DATA_BITMAP_BLOCK, INODE_BITMAP_BLOCK] else []) →
          b = DATA_BITMAP_BLOCK ∨ b = INODE_BITMAP_BLOCK := by
        split
        · simp
        · simp
      simp only [mem_cons, mem_append] at hb
      tauto)
  refine ⟨plan, ?_, hin⟩
  unfold removeTarget
  unfold gone unlinkedInode at hremove
  dsimp only
  rw [hremove]
  show (fun r : DiskInode × Volume => commitBlocks r.2 (unlinkBlocks parent
      (touchDir dir now) target r.1 old (r.1.type == .free)))
    (maybeFreeUnlinkedInode { s with live := removedImage s.live parent k target now } target
      gone) = _
  rw [hfree]
  show commitBlocks { s with live := reap s.openRefs _ target }
    (unlinkBlocks parent _ target node old (node.type == .free)) = _
  rw [hreleased, heq]

end Remove

/-! ## §3. Closing. -/

/-- One reference fewer. -/
def closed (s : Volume) (i : Nat) : Volume :=
  { s with
    openRefs := Function.update s.openRefs i (s.openRefs i - 1)
    opens := Function.update s.opens i (s.opens i - 1) }

theorem closeInode_spec (h : Sane s.live) (i : Nat) : (INODE_COUNT ≤ i ∧ closeInode s i = s) ∨
    (i < INODE_COUNT ∧ closeInode s i = closed s i ∧
      (InUse s.live i → (s.live.inodes i).linkCount ≠ 0)) ∨
    (InUse s.live i ∧ (s.live.inodes i).linkCount = 0 ∧ closeInode s i =
        { closed s i with live := reap (closed s i).openRefs s.live i }) := by
  by_cases hi : INODE_COUNT ≤ i
  · exact .inl ⟨hi, if_pos hi⟩
  have hlt : i < INODE_COUNT := Nat.not_le.mp hi
  have hclose : closeInode s i =
      (maybeFreeUnlinkedInode (closed s i) i ((closed s i).live.inodes i)).2 := if_neg hi
  have hfree : (s.live.inodes i).type = .free ↔ ¬InUse s.live i := by
    rw [← (h.shape i hlt).free]
    simp [InUse, hlt]
  by_cases hdead : InUse s.live i ∧ (s.live.inodes i).linkCount = 0
  · have hroot : i ≠ ROOT_INODE := fun heq => (heq ▸ h.root_live).2 hdead.2
    refine .inr (.inr ⟨hdead.1, hdead.2, ?_⟩)
    rw [hclose, maybeFree_eq (closed s i) hlt hroot (fun ht => hfree.mp ht hdead.1) hdead.2]
    rfl
  · refine .inr (.inl ⟨hlt, ?_, fun hu hl => hdead ⟨hu, hl⟩⟩)
    -- An inode with links, or one that is free, stays.
    rw [hclose, maybeFreeUnlinkedInode]
    split
    · rfl
    rw [if_pos]
    by_cases hu : InUse s.live i
    · exact .inr (.inl (fun hl => hdead ⟨hu, hl⟩))
    · exact .inl (hfree.mpr hu)

/-! ## §4. Renaming within a directory. -/

/-- The inode of a file that was renamed. -/
def renamedInode (node : DiskInode) (now : Nat) : DiskInode := { node with ctime := now }

/-- The image in which the slot has another name. -/
def renamedImage (img : Image) (parent k : Nat) (leaf : List UInt8) (target now : Nat) : Image :=
  ((setSlot img (img.inodes parent) k leaf target).storeInode target
    (renamedInode (img.inodes target) now)).storeInode parent (touchDir (img.inodes parent) now)

theorem entryOf_eq (hi : IsDir img i) (hk : k < DIR_SLOTS) :
    entryOf img i k = slotEntry img (img.inodes i) k := if_pos ⟨hi, hk⟩

/-- A file has no entries. -/
theorem entryOf_of_regular (hreg : (img.inodes c).type = .regular) (k : Nat) :
    entryOf img c k = none := by
  refine if_neg (fun hk => ?_)
  exact absurd (hk.1.2.symm.trans hreg) (by decide)

theorem dir_ne_regular (hdir : IsDir img i) (hreg : (img.inodes c).type = .regular) : i ≠ c := by
  rintro rfl
  exact absurd (hdir.2.symm.trans hreg) (by decide)

theorem renamedInode_times (node : DiskInode) (now : Nat) :
    TimesOnly node (renamedInode node now) :=
  ⟨rfl, rfl, rfl, rfl, rfl, rfl, rfl⟩

/-- An image with the same inodes has the same directories. -/
theorem entryOf_congr {img' : Image} (hinodes : img'.inodes = img.inodes)
    (hbits : img'.inodeBitmap = img.inodeBitmap) (hslot : IsDir img i → k < DIR_SLOTS →
      slotEntry img' (img.inodes i) k = slotEntry img (img.inodes i) k) :
    entryOf img' i k = entryOf img i k := by
  have hdir : IsDir img' i ↔ IsDir img i := by
    unfold IsDir InUse
    rw [hinodes, hbits]
  unfold entryOf
  by_cases hx : IsDir img i ∧ k < DIR_SLOTS
  · rw [if_pos hx, if_pos ⟨hdir.mpr hx.1, hx.2⟩, hinodes]
    exact hslot hx.1 hx.2
  · rw [if_neg hx, if_neg (fun hx' => hx ⟨hdir.mp hx'.1, hx'.2⟩)]

section Rename

variable {parent target : Nat} {leaf leaf' : List UInt8}

theorem Sane.renamed (h : Sane img) (now : Nat) (hplace : Place img parent leaf')
    (hk : k < DIR_SLOTS) (he : slotEntry img (img.inodes parent) k = some (target, leaf))
    (hreg : (img.inodes target).type = .regular)
    (hl : dirLookup img (img.inodes parent) leaf' = none) :
    Sane (renamedImage img parent k leaf' target now) ∧
      ∀ j < INODE_COUNT, Frame img (renamedImage img parent k leaf' target now) j := by
  set named := setSlot img (img.inodes parent) k leaf' target
  have hdir := hplace.dir
  have hentry := entryOf_slot hdir hk he
  have hempty := entryOf_of_regular hreg
  have hne : parent ≠ target := parent_ne_child hdir hk he hempty
  have hlive := (h.tree.target parent k target leaf hentry).1
  have hb := (slotEntry_some he).1
  have hcount : INODE_COUNT = 32 := rfl
  have hlt := hlive.1.1
  -- The slot changes its name, and nothing else happens to the tree.
  have hmove : Sane named := by
    have hnew : entryOf named parent k = some (target, leaf') := by
      refine entryOf_slot ?_ hk ?_
      · exact hdir
      · exact slotEntry_setSlot hb (by omega) hplace.length hplace.noZero rfl rfl
    refine h.move (i := parent) (j := parent) (k := k) (c := target) rfl rfl rfl hdir hdir ?_
      hentry hnew ?_ ?_ hempty hplace.links hne (.inr ⟨rfl, rfl⟩) ?_
    · intro l _ hl _
      exact Sane.elsewhere_slot hdir.1 hk hl (fun b hb => setSlot_blocks_of_ne hb _ _)
    · exact fun hnot => absurd ⟨rfl, rfl⟩ hnot
    · intro e r hnot _
      refine entryOf_congr rfl rfl (fun he hr => ?_)
      exact slotEntry_setSlot_of_ne (h.slot_apart hdir.1 hk hb he.1 hr hnot)
    · intro r c' hr
      unfold entryOf at hr
      split at hr
      · rename_i hx
        exact dirLookup_none hl hx.2 c' hr
      · cases hr
  have htouch : Touched named (renamedImage img parent k leaf' target now) :=
    ((Touched.refl _).store (renamedInode_times ..)).store (touchDir_times ..)
  refine ⟨htouch.sane hmove, fun j hj => Frame.trans ?_ (htouch.kept j).frame⟩
  by_cases hjp : j = parent
  · subst hjp
    exact Frame.of_dir rfl hdir hdir.2 Iff.rfl
  · have hkept : Kept img named j := h.kept hj rfl rfl
      (Sane.elsewhere_slot hdir.1 hk hjp (fun b hb => setSlot_blocks_of_ne hb _ _))
    exact hkept.frame

/-- The plan of `rename`. -/
theorem renameBlocks_ok (s : Volume) {oldParent newParent : Nat} {oldDir newDir : DiskInode}
    (hold : oldParent < INODE_COUNT) (hnew : newParent < INODE_COUNT)
    (hdata : ∀ b ∈ inodeData oldDir, b < TOTAL_BLOCKS)
    (hdata' : ∀ b ∈ inodeData newDir, b < TOTAL_BLOCKS) :
    ∃ plan, commitBlocks s (renameBlocks oldParent oldDir newParent newDir) =
        (.success, s.commit plan) ∧
      ∀ b, b ∈ plan ↔ b = 0 ∨ b ∈ renameBlocks oldParent oldDir newParent newDir := by
  refine commitBlocks_ok s _ hnew hold hdata' hdata (fun b hb => ?_)
  unfold renameBlocks at hb
  have hlast : b ∈ (if oldParent ≠ newParent then [DATA_BITMAP_BLOCK] else []) →
      b = DATA_BITMAP_BLOCK := by
    split
    · simp
    · simp
  simp only [mem_cons, mem_append] at hb
  tauto

theorem renameInPlace_spec (s : Volume) (now : Nat) (leaf' : List UInt8) (target : Nat)
    (h : Sane s.live) (hdir : IsDir s.live parent)
    (hfind : dirFindSlot s.live (s.live.inodes parent) leaf = some k) :
    ∃ plan, renameInPlace s parent leaf leaf' target now = (.success,
        Volume.commit { s with live := renamedImage s.live parent k leaf' target now } plan) ∧
      ∀ b, b ∈ plan ↔ b = 0 ∨ b ∈ renameBlocks parent (touchDir (s.live.inodes parent) now) parent
          (touchDir (s.live.inodes parent) now) := by
  have hdata : ∀ b ∈ inodeData (touchDir (s.live.inodes parent) now), b < TOTAL_BLOCKS :=
    fun b hb => h.inodeData_lt hdir.1 hb
  obtain ⟨plan, heq, hin⟩ := renameBlocks_ok
    { s with live := renamedImage s.live parent k leaf' target now } hdir.1.1 hdir.1.1 hdata hdata
  refine ⟨plan, ?_, hin⟩
  unfold renameInPlace
  simp only
  rw [hfind]
  exact heq

end Rename

/-! ## §5. Renaming into another directory. -/

/-- The image in which the entry has moved. -/
def movedImage (G : Image) (oldParent src newParent dst : Nat) (leaf : List UInt8)
    (target now : Nat) : Image :=
  (((clearSlot (setSlot G (G.inodes newParent) dst leaf target) (G.inodes oldParent) src).storeInode
    target (renamedInode (G.inodes target) now)).storeInode oldParent
      (touchDir (G.inodes oldParent) now)).storeInode newParent (touchDir (G.inodes newParent) now)

section Move

variable {G : Image} {oldParent newParent target src dst : Nat} {leaf leaf' : List UInt8}

/-- Only the blocks of the two slots change. -/
theorem elsewhere_moved (hold : IsDir G oldParent) (hnew : IsDir G newParent)
    (hsrc : src < DIR_SLOTS) (hdst : dst < DIR_SLOTS) (hjo : j ≠ oldParent) (hjn : j ≠ newParent) :
    Elsewhere G (clearSlot (setSlot G (G.inodes newParent) dst leaf' target)
      (G.inodes oldParent) src) j := by
  intro b
  by_cases hbo : b = slotBlock (G.inodes oldParent) src
  · exact .inr (.inr ⟨oldParent, src / DIRENTS_PER_BLOCK, hjo.symm, hold.1, slot_div_lt hsrc,
      hbo.symm⟩)
  · by_cases hbn : b = slotBlock (G.inodes newParent) dst
    · exact .inr (.inr ⟨newParent, dst / DIRENTS_PER_BLOCK, hjn.symm, hnew.1,
        slot_div_lt hdst, hbn.symm⟩)
    · exact .inl ((clearSlot_blocks_of_ne hbo).trans (setSlot_blocks_of_ne hbn _ _))

theorem Sane.moved (h : Sane G) (hold : IsDir G oldParent) (hplace : Place G newParent leaf')
    (hparents : oldParent ≠ newParent) (hsrc : src < DIR_SLOTS) (hdst : dst < DIR_SLOTS)
    (he : slotEntry G (G.inodes oldParent) src = some (target, leaf))
    (hreg : (G.inodes target).type = .regular) (hb' : slotBlock (G.inodes newParent) dst ≠ 0)
    (hfree : slotEntry G (G.inodes newParent) dst = none)
    (hname : ∀ k < DIR_SLOTS, ∀ c, slotEntry G (G.inodes newParent) k ≠ some (c, leaf')) :
    Sane (clearSlot (setSlot G (G.inodes newParent) dst leaf' target)
      (G.inodes oldParent) src) := by
  have hnew := hplace.dir
  have hentry := entryOf_slot hold hsrc he
  have hempty := entryOf_of_regular hreg
  have hlive := (h.tree.target oldParent src target leaf hentry).1
  have hb := (slotEntry_some he).1
  have hcount : INODE_COUNT = 32 := rfl
  have hlt := hlive.1.1
  have hne : newParent ≠ target := dir_ne_regular hnew hreg
  have hadded : entryOf (clearSlot (setSlot G (G.inodes newParent) dst leaf' target)
      (G.inodes oldParent) src) newParent dst = some (target, leaf') := by
    refine entryOf_slot ?_ hdst ?_
    · exact hnew
    · have hapart := h.slot_apart hold.1 hsrc hb hnew.1 hdst (fun hx => hparents hx.1.symm)
      show slotEntry (clearSlot _ (G.inodes oldParent) src) (G.inodes newParent) dst = _
      rw [slotEntry_clearSlot_of_ne hapart]
      exact slotEntry_setSlot hb' (by omega) hplace.length hplace.noZero rfl rfl
  refine h.move (i := oldParent) (j := newParent) (k := src) (c := target) rfl rfl rfl hold hnew ?_
    hentry hadded ?_ ?_ hempty hplace.links hne ?_ ?_
  · exact fun l _ hlo hln => elsewhere_moved hold hnew hsrc hdst hlo hln
  · intro _
    unfold entryOf
    split
    · exact slotEntry_clearSlot rfl rfl
    · rfl
  · intro e r hnot hnot'
    refine entryOf_congr rfl rfl (fun he hr => ?_)
    rw [slotEntry_clearSlot_of_ne (h.slot_apart hold.1 hsrc hb he.1 hr hnot)]
    exact slotEntry_setSlot_of_ne (h.slot_apart hnew.1 hdst hb' he.1 hr hnot')
  · left
    rw [entryOf_eq hnew hdst]
    exact hfree
  · intro r c' hr
    unfold entryOf at hr
    split at hr
    · rename_i hx
      exact hname r hx.2 c' hr
    · cases hr

theorem SlotRoom.moved (hroom : SlotRoom img newParent dst G) (now : Nat)
    (hold : IsDir img oldParent)
    (hplace : Place img newParent leaf') (hparents : oldParent ≠ newParent) (hsrc : src < DIR_SLOTS)
    (he : slotEntry img (img.inodes oldParent) src = some (target, leaf))
    (hreg : (img.inodes target).type = .regular)
    (hl : dirLookup img (img.inodes newParent) leaf' = none) :
    Sane (movedImage G oldParent src newParent dst leaf' target now) ∧ ∀ j < INODE_COUNT,
        Frame img (movedImage G oldParent src newParent dst leaf' target now) j := by
  have hsame : G.inodes oldParent = img.inodes oldParent := hroom.others _ hparents
  have hold' : IsDir G oldParent := by
    refine ⟨(hroom.frame hplace.dir hold.1.1).inUse.mpr hold.1, ?_⟩
    rw [hsame]
    exact hold.2
  have he' : slotEntry G (G.inodes oldParent) src = some (target, leaf) := by
    rw [← entryOf_eq hold' hsrc, hroom.entries, entryOf_eq hold hsrc]
    exact he
  have hnt : newParent ≠ target := dir_ne_regular hplace.dir hreg
  have hreg' : (G.inodes target).type = .regular := by
    rw [hroom.others _ hnt.symm]
    exact hreg
  have hplace' : Place G newParent leaf' := by
    refine ⟨hroom.dir, ?_, hplace.length, hplace.noZero⟩
    rw [hroom.links]
    exact hplace.links
  have hmove := hroom.sane.moved hold' hplace' hparents hsrc hroom.lt he' hreg' hroom.block
    hroom.empty (hroom.name_free hplace.dir hl)
  generalize hM : clearSlot (setSlot G (G.inodes newParent) dst leaf' target)
    (G.inodes oldParent) src = M at hmove
  have hinodes : M.inodes = G.inodes := by rw [← hM]; rfl
  have htouch : Touched M (movedImage G oldParent src newParent dst leaf' target now) := by
    unfold movedImage
    rw [hM, ← hinodes]
    exact (((Touched.refl M).store (renamedInode_times ..)).store (touchDir_times ..)).store
      (touchDir_times ..)
  refine ⟨htouch.sane hmove, fun j hj => (hroom.frame hplace.dir hj).trans ?_⟩
  -- Both directories change, no other inode does.
  have hdir : IsDir G j → Frame G M j := fun hd =>
    Frame.of_dir (by rw [← hM]; rfl) hd (by rw [hinodes]; exact hd.2) (by rw [hinodes])
  have hframe : Frame G M j := by
    by_cases hjo : j = oldParent
    · exact hdir (hjo ▸ hold')
    by_cases hjn : j = newParent
    · exact hdir (hjn ▸ hroom.dir)
    · refine (hroom.sane.kept hj (by rw [← hM]; rfl) (by rw [hinodes]) ?_).frame
      rw [← hM]
      exact elsewhere_moved hold' hroom.dir hsrc hroom.lt hjo hjn
  exact hframe.trans (htouch.kept j).frame

theorem renameAcross_spec (s : Volume) (now : Nat) (h : Sane s.live)
    (hold : IsDir s.live oldParent) (hplace : Place s.live newParent leaf')
    (hparents : oldParent ≠ newParent)
    (hfind : dirFindSlot s.live (s.live.inodes oldParent) leaf = some src)
    (hreg : (s.live.inodes target).type = .regular) :
    renameAcross s oldParent leaf newParent leaf' target now = (.noSpace, s) ∨
    ∃ dst G plan, SlotRoom s.live newParent dst G ∧
      renameAcross s oldParent leaf newParent leaf' target now = (.success, Volume.commit
          { s with live := movedImage G oldParent src newParent dst leaf' target now } plan) ∧
      ∀ b, b ∈ plan ↔ b = 0 ∨
        b ∈ renameBlocks oldParent (touchDir (s.live.inodes oldParent) now) newParent
          (touchDir (G.inodes newParent) now) := by
  unfold renameAcross
  simp only
  rw [hfind]
  rcases dirReserveSlot_spec h hplace.dir with herr | ⟨dst, G, hok, hroom⟩
  · rw [herr]
    exact .inl rfl
  rw [hok]
  have hnt : target ≠ newParent := (dir_ne_regular hplace.dir hreg).symm
  have hdata : ∀ b ∈ inodeData (touchDir (s.live.inodes oldParent) now), b < TOTAL_BLOCKS :=
    fun b hb => h.inodeData_lt hold.1 hb
  have hdata' : ∀ b ∈ inodeData (touchDir (G.inodes newParent) now), b < TOTAL_BLOCKS :=
    fun b hb => hroom.sane.inodeData_lt hroom.dir.1 hb
  obtain ⟨plan, heq, hin⟩ := renameBlocks_ok
    { s with live := movedImage G oldParent src newParent dst leaf' target now }
    hold.1.1 hplace.dir.1.1 hdata hdata'
  refine .inr ⟨dst, G, plan, hroom, ?_, hin⟩
  rw [← heq]
  unfold movedImage
  rw [hroom.others _ hparents, hroom.others _ hnt]
  rfl

end Move

end BigOS.Fs.Bigfs
