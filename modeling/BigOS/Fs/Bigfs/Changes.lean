/-
  BigOS.Fs.Bigfs.Changes — the changes of the namespace.

  A directory grows by a block, a new inode is entered, an entry is removed, an inode
  without links is freed, and an entry moves.  Each of these keeps `Sane`, and each of
  them keeps all inodes but the ones it is about.

  Main results: `Sane.grow`, `Sane.enter`, `Sane.detach`, `Sane.free`, `Sane.move`.
-/
import BigOS.Fs.Bigfs.Structure

namespace BigOS.Fs.Bigfs

open BigOS.Lib Function

variable {img img' : Image} {i j c d b k k' x : Nat}

theorem entryOf_kept (h : j < INODE_COUNT → Kept img img' j) :
    entryOf img' j k = entryOf img j k := by
  by_cases hj : j < INODE_COUNT
  · exact (h hj).entry k
  · rw [entryOf_of_not_inUse (fun hu => hj hu.1), entryOf_of_not_inUse (fun hu => hj hu.1)]

/-! ## §1. A directory grows. -/

/-- A block that is not in the bitmap. -/
theorem not_marked_new (hfree : img.dataBitmap x = false) : ¬Marked img (DATA_START + x) := by
  intro hm
  have hbit := hm.2.2
  rw [Nat.add_sub_cancel_left, hfree] at hbit
  cases hbit

/-- The inode with other direct blocks. -/
def Image.withDirect (img : Image) (i : Nat) (direct : Nat → Nat) : Image :=
  img.storeInode i { img.inodes i with direct := direct }

theorem withDirect_self (img : Image) (i : Nat) (direct : Nat → Nat) :
    (img.withDirect i direct).inodes i = { img.inodes i with direct := direct } :=
  update_self ..

theorem withDirect_of_ne (direct : Nat → Nat) (hj : j ≠ i) :
    (img.withDirect i direct).inodes j = img.inodes j := update_of_ne hj ..

theorem marked_setDataBit (hx : x < DATA_BLOCK_COUNT) (b : Nat) :
    Marked (img.setDataBit x true) b ↔ Marked img b ∨ b = DATA_START + x := by
  have hvals : DATA_START = 43 ∧ TOTAL_BLOCKS = 256 ∧ DATA_BLOCK_COUNT = 213 := ⟨rfl, rfl, rfl⟩
  have hbits : (img.setDataBit x true).dataBitmap = Function.update img.dataBitmap x true := rfl
  unfold Marked
  rw [hbits]
  by_cases hb : b = DATA_START + x
  · subst hb
    rw [Nat.add_sub_cancel_left, update_self]
    exact ⟨fun _ => .inr rfl, fun _ => ⟨by omega, by omega, rfl⟩⟩
  · by_cases hlo : DATA_START ≤ b
    · rw [update_of_ne (by omega)]
      exact ⟨Or.inl, fun h => h.resolve_right hb⟩
    · exact ⟨fun h => absurd h.1 hlo, fun h => absurd (h.resolve_right hb).1 hlo⟩

/-- One block is reserved. -/
theorem tidy_withDirect {direct : Nat → Nat} (hi : InUse img i) (hd : d < DIRECT_BLOCKS)
    (hx : x < DATA_BLOCK_COUNT) (hfree : img.dataBitmap x = false) (hzero : direct d = 0)
    (h : Tidy (ownOf (img.withDirect i direct)) (Marked img)) :
    Tidy (ownOf ((img.setDataBit x true).withDirect i (Function.update direct d (DATA_START + x))))
      (Marked (img.setDataBit x true)) := by
  have hvals : DATA_START = 43 := rfl
  refine h.claim (o := (i, d)) (b := DATA_START + x) ?_ (not_marked_new hfree) ?_ ?_
    (marked_setDataBit hx)
  · refine if_neg (fun ho => ho.2.2 ?_)
    rw [withDirect_self]
    exact hzero
  · have hself := withDirect_self (img.setDataBit x true) i
      (Function.update direct d (DATA_START + x))
    have hval : (((img.setDataBit x true).withDirect i
        (Function.update direct d (DATA_START + x))).inodes i).direct d = DATA_START + x := by
      rw [hself]
      exact update_self ..
    have hu : InUse ((img.setDataBit x true).withDirect i
        (Function.update direct d (DATA_START + x))) i := hi
    rw [ownOf_eq hu hd (by rw [hval]; omega), hval]
  · rintro ⟨j, e⟩ hne
    refine ownOf_congr ?_ ?_
    · rfl
    by_cases hji : j = i
    · subst hji
      rw [withDirect_self, withDirect_self]
      exact update_of_ne (fun heq => hne (by rw [heq])) ..
    · rw [withDirect_of_ne _ hji, withDirect_of_ne _ hji]
      rfl

/-- The block `DATA_START + x`, zeroed, becomes direct block `d` of the directory. -/
def growDir (img : Image) (i d x : Nat) : Image :=
  ((img.setDataBit x true).setBlock (DATA_START + x) zeroBlock).storeInode i
    { img.inodes i with
      direct := Function.update (img.inodes i).direct d (DATA_START + x)
      size := (img.inodes i).size + BLOCK_SIZE }

section Grow

variable (h : Sane img) (hi : IsDir img i) (hd : d < DIRECT_BLOCKS)
  (hzero : (img.inodes i).direct d = 0) (hx : x < DATA_BLOCK_COUNT)
  (hfree : img.dataBitmap x = false)

theorem growDir_self : (growDir img i d x).inodes i = { img.inodes i with
      direct := Function.update (img.inodes i).direct d (DATA_START + x)
      size := (img.inodes i).size + BLOCK_SIZE } := update_self ..

theorem growDir_of_ne (hj : j ≠ i) : (growDir img i d x).inodes j = img.inodes j :=
  update_of_ne hj ..

theorem growDir_block : (growDir img i d x).blocks (DATA_START + x) = zeroBlock := update_self ..

theorem growDir_block_of_ne (hb : b ≠ DATA_START + x) :
    (growDir img i d x).blocks b = img.blocks b := update_of_ne hb ..

include h hfree in
theorem growDir_kept (hj : j < INODE_COUNT) (hji : j ≠ i) : Kept img (growDir img i d x) j := by
  refine h.kept hj ?_ (growDir_of_ne hji) ?_
  · rfl
  intro b
  by_cases hb : b = DATA_START + x
  · subst hb
    exact .inr (.inl (not_marked_new hfree))
  · exact .inl (growDir_block_of_ne hb)

include h hi hzero hfree in
/-- The directory says what it said: the slots of the new block are empty. -/
theorem growDir_entry (k : Nat) : entryOf (growDir img i d x) i k = entryOf img i k := by
  have hdir : IsDir (growDir img i d x) i := by
    refine ⟨hi.1, ?_⟩
    rw [growDir_self]
    exact hi.2
  unfold entryOf
  by_cases hk : k < DIR_SLOTS
  · rw [if_pos ⟨hdir, hk⟩, if_pos ⟨hi, hk⟩, growDir_self]
    by_cases hkd : k / DIRENTS_PER_BLOCK = d
    · -- A slot of the new block.
      have hnew : slotBlock { img.inodes i with
          direct := Function.update (img.inodes i).direct d (DATA_START + x)
          size := (img.inodes i).size + BLOCK_SIZE } k = DATA_START + x := by
        simp [slotBlock, hkd]
      have hold : slotBlock (img.inodes i) k = 0 := by rw [slotBlock, hkd, hzero]
      unfold slotEntry
      rw [hnew, growDir_block, direntInode_zero, if_pos (Or.inr rfl), hold, if_pos (Or.inl rfl)]
    · have hslot : slotBlock { img.inodes i with
          direct := Function.update (img.inodes i).direct d (DATA_START + x)
          size := (img.inodes i).size + BLOCK_SIZE } k = slotBlock (img.inodes i) k := by
        simp [slotBlock, update_of_ne hkd]
      apply slotEntry_congr hslot
      intro hne
      apply growDir_block_of_ne
      intro heq
      exact not_marked_new hfree (heq ▸ h.marked hi.1 (slot_div_lt hk) hne)
  · rw [if_neg (fun hk' => hk hk'.2), if_neg (fun hk' => hk hk'.2)]

include h hi hzero hfree in
theorem growDir_entries (j k : Nat) : entryOf (growDir img i d x) j k = entryOf img j k := by
  by_cases hji : j = i
  · subst hji
    exact growDir_entry h hi hzero hfree k
  · exact entryOf_kept fun hj => growDir_kept h hfree hj hji

include h hi hd hzero hx hfree in
theorem Sane.grow : Sane (growDir img i d x) := by
  have hbits : ∀ j, InUse (growDir img i d x) j ↔ InUse img j := fun _ => Iff.rfl
  have hstart : DATA_START = 43 ∧ TOTAL_BLOCKS = 256 ∧ DATA_BLOCK_COUNT = 213 := ⟨rfl, rfl, rfl⟩
  have hnode : ∀ j, ((growDir img i d x).inodes j).type = (img.inodes j).type ∧
      ((growDir img i d x).inodes j).linkCount = (img.inodes j).linkCount := by
    intro j
    by_cases hji : j = i
    · subst hji
      rw [growDir_self]
      exact ⟨rfl, rfl⟩
    · rw [growDir_of_ne hji]
      exact ⟨rfl, rfl⟩
  refine ⟨?_, ?_, ?_⟩
  · refine h.tree.congr ?_ ?_ ?_ ?_
    · rfl
    · intro j
      show InUse _ j ∧ _ ↔ InUse img j ∧ _
      rw [hbits j, (hnode j).2]
    · intro j _
      show ((growDir img i d x).inodes j).type = _ ↔ (img.inodes j).type = _
      rw [(hnode j).1]
    · -- All but the directory are kept, and so is what it says.
      exact growDir_entries h hi hzero hfree
  · -- The pointer `(i, d)` claims the new block.
    have hold : Tidy (ownOf (img.withDirect i (img.inodes i).direct)) (Marked img) := by
      rw [Image.withDirect, Image.storeInode, update_eq_self]
      exact h.blocks
    refine (tidy_withDirect hi.1 hd hx hfree hzero hold).congr ?_ (fun b => Iff.rfl)
    rintro ⟨j, e⟩
    refine ownOf_congr ?_ ?_
    · rfl
    by_cases hji : j = i
    · subst hji
      rw [growDir_self, withDirect_self]
    · rw [growDir_of_ne hji, withDirect_of_ne _ hji]
      rfl
  · intro j hj
    by_cases hji : j = i
    · subst hji
      have hs := h.shape j hj
      have hdir : ((growDir img j d x).inodes j).type = .directory := (hnode j).1.trans hi.2
      have hreg : ((growDir img j d x).inodes j).type ≠ .regular := by rw [hdir]; decide
      refine ⟨?_, fun hbit _ => ?_, fun hr => absurd hr hreg, fun hr => absurd hr hreg,
        fun hr => absurd hr hreg⟩
      · show img.inodeBitmap j = false ↔ _
        rw [(hnode j).1]
        exact hs.free
      · -- One more block, and as many more bytes.
        have hold := hs.dirSize hbit hi.2
        have hocc : Slots.occupied DIRECT_BLOCKS
            (fun e => Function.update (img.inodes j).direct d (DATA_START + x) e != 0) =
            Slots.occupied DIRECT_BLOCKS (fun e => (img.inodes j).direct e != 0) + 1 := by
          apply Slots.occupied_fill hd
          · simp [hzero]
          · simp [hstart.1]
          · intro e _ he
            rw [update_of_ne he]
        rw [growDir_self]
        rw [hocc, Nat.mul_add, Nat.mul_one, hold]
    · exact (growDir_kept h hfree hj hji).shape (h.shape j hj)

end Grow

/-! ## §2. A new inode is entered. -/

/-- The inode `c` is taken for the child, whose entry goes into slot `k` of `i`. -/
def enterChild (img : Image) (i k : Nat) (name : List UInt8) (c : Nat) (node : DiskInode) : Image :=
  setSlot ((img.setInodeBit c true).storeInode c node) (img.inodes i) k name c

section Enter

variable {name : List UInt8} {node : DiskInode} (h : Sane img) (hi : IsDir img i)
  (hlink : (img.inodes i).linkCount ≠ 0) (hk : k < DIR_SLOTS)
  (hb : slotBlock (img.inodes i) k ≠ 0) (he : slotEntry img (img.inodes i) k = none)
  (hc : c < INODE_COUNT) (hfree : img.inodeBitmap c = false)
  (hlen : name.length ≤ DIRENT_NAME_MAX) (hzero : (0 : UInt8) ∉ name)
  (hname : ∀ k' < DIR_SLOTS, ∀ c', slotEntry img (img.inodes i) k' ≠ some (c', name))
  (htype : node.type ≠ .free) (hlinks : node.linkCount ≠ 0) (hsize : node.size = 0)
  (hdirect : ∀ d, node.direct d = 0)

theorem enterChild_self : (enterChild img i k name c node).inodes c = node := update_self ..

theorem enterChild_of_ne (hj : j ≠ c) : (enterChild img i k name c node).inodes j = img.inodes j :=
  update_of_ne hj ..

theorem enterChild_bit (hj : j ≠ c) :
    (enterChild img i k name c node).inodeBitmap j = img.inodeBitmap j :=
  update_of_ne hj ..

theorem enterChild_bit_self : (enterChild img i k name c node).inodeBitmap c := update_self ..

theorem enterChild_block (hne : b ≠ slotBlock (img.inodes i) k) :
    (enterChild img i k name c node).blocks b = img.blocks b :=
  setSlot_blocks_of_ne hne name c

include h hi hk in
theorem enterChild_kept (hj : j < INODE_COUNT) (hji : j ≠ i) (hjc : j ≠ c) :
    Kept img (enterChild img i k name c node) j := by
  refine h.kept hj (enterChild_bit hjc) (enterChild_of_ne hjc) ?_
  exact Sane.elsewhere_slot hi.1 hk hji (fun b hne => enterChild_block hne)

include hfree in
theorem not_inUse_new : ¬InUse img c := by
  exact fun hu => Bool.false_ne_true (hfree.symm.trans hu.2)

include hi hfree in
theorem parent_ne_new : i ≠ c := by
  rintro rfl
  exact not_inUse_new hfree hi.1

include hi hfree in
theorem enterChild_isDir : IsDir (enterChild img i k name c node) i := by
  have hic := parent_ne_new hi hfree
  refine ⟨⟨hi.1.1, ?_⟩, ?_⟩
  · rw [enterChild_bit hic]
    exact hi.1.2
  · rw [enterChild_of_ne hic]
    exact hi.2

include hi hk hb hc hfree hlen hzero in
theorem enterChild_entry : entryOf (enterChild img i k name c node) i k = some (c, name) := by
  have hcount : INODE_COUNT = 32 := rfl
  unfold entryOf
  rw [if_pos ⟨enterChild_isDir hi hfree, hk⟩, enterChild_of_ne (parent_ne_new hi hfree)]
  exact slotEntry_setSlot hb (by omega) hlen hzero rfl rfl

include h hi hk hb hc hfree hdirect in
theorem enterChild_entry_of_ne (hne : ¬(j = i ∧ k' = k)) :
    entryOf (enterChild img i k name c node) j k' = entryOf img j k' := by
  have hic := parent_ne_new hi hfree
  by_cases hji : j = i
  · -- Another slot of the same directory.
    subst hji
    unfold entryOf
    by_cases hk' : k' < DIR_SLOTS
    · rw [if_pos ⟨enterChild_isDir hi hfree, hk'⟩, if_pos ⟨hi, hk'⟩, enterChild_of_ne hic]
      exact slotEntry_setSlot_of_ne (h.slot_apart hi.1 hk hb hi.1 hk' hne)
    · rw [if_neg (fun hx => hk' hx.2), if_neg (fun hx => hk' hx.2)]
  · by_cases hjc : j = c
    · -- The new inode has no blocks yet.
      subst hjc
      rw [entryOf_of_not_inUse (not_inUse_new hfree)]
      unfold entryOf
      split
      · rw [enterChild_self]
        exact slotEntry_of_zero (hdirect _)
      · rfl
    · exact entryOf_kept fun hj => enterChild_kept h hi hk hj hji hjc

include h hi hlink hk hb he hc hfree hlen hzero hname htype hlinks hsize hdirect in
theorem Sane.enter : Sane (enterChild img i k name c node) := by
  have hnot := not_inUse_new hfree
  refine ⟨?_, ?_, ?_⟩
  · refine h.tree.add (d := i) (s := k) (c := c) (a := name) ?_ ?_ ?_ ?_ ?_ ?_ ?_ ?_ ?_ ?_
    · rfl
    · intro j
      by_cases hjc : j = c
      · subst hjc
        refine ⟨fun _ => .inr rfl, fun _ => ⟨⟨hc, enterChild_bit_self⟩, ?_⟩⟩
        rw [enterChild_self]
        exact hlinks
      · show (j < INODE_COUNT ∧ _) ∧ _ ↔ ((j < INODE_COUNT ∧ _) ∧ _) ∨ _
        rw [enterChild_bit hjc, enterChild_of_ne hjc]
        exact ⟨Or.inl, fun hx => hx.resolve_right hjc⟩
    · intro j hj
      have hjc : j ≠ c := fun heq => hnot (heq ▸ hj.1)
      show (Image.inodes _ j).type = _ ↔ (img.inodes j).type = _
      rw [enterChild_of_ne hjc]
    · exact enterChild_entry hi hk hb hc hfree hlen hzero
    · exact fun j k' hne => enterChild_entry_of_ne h hi hk hb hc hfree hdirect hne
    · exact fun hl => hnot hl.1
    · exact ⟨hi.1, hlink⟩
    · exact hi.2
    · show entryOf img i k = none
      rw [entryOf, if_pos ⟨hi, hk⟩]
      exact he
    · intro k' c' hk'
      have hk' : entryOf img i k' = some (c', name) := hk'
      unfold entryOf at hk'
      split at hk'
      · rename_i hx
        exact hname k' hx.2 c' hk'
      · cases hk'
  · apply h.blocks.congr
    · rintro ⟨j, d⟩
      by_cases hjc : j = c
      · subst hjc
        rw [ownOf_of_not_inUse hnot]
        unfold ownOf
        rw [enterChild_self, if_neg (fun hx => hx.2.2 (hdirect d))]
      · exact ownOf_congr (enterChild_bit hjc) (by rw [enterChild_of_ne hjc])
    · exact fun b => Iff.rfl
  · intro j hj
    by_cases hjc : j = c
    · subst hjc
      have hself : (enterChild img i k name j node).inodes j = node := enterChild_self
      refine ⟨?_, fun _ _ => ?_, fun _ => ?_, fun _ d _ hne => ?_, fun _ d _ hne => ?_⟩
      · rw [enterChild_bit_self, hself]
        exact ⟨fun hx => absurd hx (by simp), fun hx => absurd hx htype⟩
      · -- No blocks, no bytes.
        have hocc : Slots.occupied DIRECT_BLOCKS (fun d => node.direct d != 0) = 0 :=
          Slots.occupied_eq_zero.mpr (fun d _ => by simp [hdirect d])
        rw [hself, hocc, hsize]
        rfl
      · rw [hself, hsize]
        exact Nat.zero_le _
      · rw [hself] at hne
        exact absurd (hdirect d) hne
      · rw [hself] at hne
        exact absurd (hdirect d) hne
    · by_cases hji : j = i
      · subst hji
        have hself : (enterChild img j k name c node).inodes j = img.inodes j :=
          enterChild_of_ne hjc
        apply (h.shape j hj).of_dir (enterChild_bit hjc) hi.2 <;> rw [hself]
        · exact hi.2
        · exact fun _ _ => rfl
      · exact (enterChild_kept h hi hk hj hji hjc).shape (h.shape j hj)

end Enter

/-! ## §3. An entry is removed. -/

/-- The child loses its link, and the slot of `i` its entry. -/
def detachChild (img : Image) (i k c : Nat) (node : DiskInode) : Image :=
  clearSlot (img.storeInode c node) (img.inodes i) k

section Detach

variable {name : List UInt8} {node : DiskInode} (h : Sane img) (hi : IsDir img i)
  (hk : k < DIR_SLOTS) (he : slotEntry img (img.inodes i) k = some (c, name))
  (hempty : ∀ k', entryOf img c k' = none) (htype : node.type = (img.inodes c).type)
  (hsize : node.size = (img.inodes c).size) (hlinks : node.linkCount = 0)
  (hdirect : ∀ d < DIRECT_BLOCKS, node.direct d = (img.inodes c).direct d)

theorem detachChild_self : (detachChild img i k c node).inodes c = node := update_self ..

theorem detachChild_of_ne (hj : j ≠ c) : (detachChild img i k c node).inodes j = img.inodes j :=
  update_of_ne hj ..

theorem detachChild_block (hne : b ≠ slotBlock (img.inodes i) k) :
    (detachChild img i k c node).blocks b = img.blocks b :=
  clearSlot_blocks_of_ne hne

include hi hk he in
theorem entryOf_slot : entryOf img i k = some (c, name) := by
  rw [entryOf, if_pos ⟨hi, hk⟩]
  exact he

include hi hk he hempty in
theorem parent_ne_child : i ≠ c := by
  rintro rfl
  cases (hempty k).symm.trans (entryOf_slot hi hk he)

include h hi hk in
theorem detachChild_kept (hj : j < INODE_COUNT) (hji : j ≠ i) (hjc : j ≠ c) :
    Kept img (detachChild img i k c node) j := by
  refine h.kept hj ?_ (detachChild_of_ne hjc) ?_
  · rfl
  · exact Sane.elsewhere_slot hi.1 hk hji (fun b hne => detachChild_block hne)

include h hi hk he hempty htype hsize hdirect in
/-- The child keeps everything but its link. -/
theorem detachChild_body (hc : c < INODE_COUNT) : Body img (detachChild img i k c node) c := by
  have hself : (detachChild img i k c node).inodes c = node := detachChild_self
  have hic := parent_ne_child hi hk he hempty
  -- Its blocks are not the one the entry is in.
  have hblocks : Elsewhere img (detachChild img i k c node) c :=
    Sane.elsewhere_slot hi.1 hk hic.symm (fun b hne => detachChild_block hne)
  have hkept : Kept img { img with blocks := (detachChild img i k c node).blocks } c :=
    h.kept hc rfl rfl hblocks
  refine ⟨rfl, ?_, ?_, fun d hd => ?_, hkept.blocks⟩ <;> rw [hself]
  · exact htype
  · exact hsize
  · exact hdirect d hd

include hi hk he hempty in
theorem detachChild_isDir : IsDir (detachChild img i k c node) i := by
  refine ⟨hi.1, ?_⟩
  rw [detachChild_of_ne (parent_ne_child hi hk he hempty)]
  exact hi.2

include h hi hk he hempty in
theorem detachChild_entry_parent (hne : k' ≠ k) :
    entryOf (detachChild img i k c node) i k' = entryOf img i k' := by
  have hic := parent_ne_child hi hk he hempty
  unfold entryOf
  by_cases hk' : k' < DIR_SLOTS
  · rw [if_pos ⟨detachChild_isDir hi hk he hempty, hk'⟩, if_pos ⟨hi, hk'⟩, detachChild_of_ne hic]
    exact slotEntry_clearSlot_of_ne
      (h.slot_apart hi.1 hk (slotEntry_some he).1 hi.1 hk' (fun hx => hne hx.2))
  · rw [if_neg (fun hx => hk' hx.2), if_neg (fun hx => hk' hx.2)]

include hi hk he hempty in
theorem detachChild_entry_gone : entryOf (detachChild img i k c node) i k = none := by
  rw [entryOf, if_pos ⟨detachChild_isDir hi hk he hempty, hk⟩,
    detachChild_of_ne (parent_ne_child hi hk he hempty)]
  exact slotEntry_clearSlot rfl rfl

include h hi hk he hempty htype hsize hlinks hdirect in
theorem Sane.detach : Sane (detachChild img i k c node) := by
  have hentry := entryOf_slot hi hk he
  have hlive : (Bigfs.tree img).live c := (h.tree.target i k c name hentry).1
  have hc : c < INODE_COUNT := hlive.1.1
  have hbody := detachChild_body h hi hk he hempty htype hsize hdirect hc
  refine ⟨?_, ?_, ?_⟩
  · refine h.tree.remove (d := i) (s := k) (c := c) (a := name) ?_ ?_ ?_ hentry ?_ ?_ hempty
    · rfl
    · intro j
      by_cases hjc : j = c
      · subst hjc
        refine ⟨fun hl => absurd ?_ hl.2, fun hl => absurd rfl hl.2⟩
        rw [detachChild_self]
        exact hlinks
      · show InUse img j ∧ _ ↔ (InUse img j ∧ _) ∧ _
        rw [detachChild_of_ne hjc]
        exact ⟨fun hl => ⟨hl, hjc⟩, fun hl => hl.1⟩
    · intro j _ hjc
      show (Image.inodes _ j).type = _ ↔ (img.inodes j).type = _
      rw [detachChild_of_ne hjc]
    · exact detachChild_entry_gone hi hk he hempty
    · intro j k' hne
      by_cases hji : j = i
      · subst hji
        exact detachChild_entry_parent h hi hk he hempty (fun hx => hne ⟨rfl, hx⟩)
      · by_cases hjc : j = c
        · subst hjc
          exact hbody.entry k'
        · exact entryOf_kept fun hj => detachChild_kept h hi hk hj hji hjc
  · apply h.blocks.congr
    · rintro ⟨j, d⟩
      by_cases hjc : j = c
      · subst hjc
        exact hbody.own d
      · exact ownOf_congr rfl (by rw [detachChild_of_ne hjc])
    · exact fun b => Iff.rfl
  · intro j hj
    by_cases hjc : j = c
    · subst hjc
      exact hbody.shape (h.shape j hj)
    by_cases hji : j = i
    · subst hji
      have hself : (detachChild img j k c node).inodes j = img.inodes j := detachChild_of_ne hjc
      refine (h.shape j hj).of_dir ?_ hi.2 ?_ ?_ ?_
      · rfl
      · rw [hself]
        exact hi.2
      · rw [hself]
      · exact fun _ _ => by rw [hself]
    · exact (detachChild_kept h hi hk hj hji hjc).shape (h.shape j hj)

end Detach

/-! ## §4. An inode is freed. -/

/-- What freeing blocks does to the image. -/
theorem freeBlocks_eq (img : Image) (blocks : List Nat) :
    ∃ bitmap, freeBlocks img blocks = { img with dataBitmap := bitmap } ∧
      ∀ x, bitmap x ↔ img.dataBitmap x ∧
        ∀ b ∈ blocks, b ≠ 0 → DATA_START ≤ b → b - DATA_START ≠ x := by
  induction blocks generalizing img with
  | nil => exact ⟨img.dataBitmap, rfl, fun x => by simp⟩
  | cons b rest ih =>
    have hstep : freeBlocks img (b :: rest) =
        freeBlocks (if b = 0 then img else freeDataBlock img b) rest := rfl
    rw [hstep]
    by_cases hb : b = 0 ∨ b < DATA_START
    · -- Nothing to free.
      have hsame : (if b = 0 then img else freeDataBlock img b) = img := by
        rcases hb with hb | hb
        · rw [if_pos hb]
        · split
          · rfl
          · rw [freeDataBlock, if_pos hb]
      rw [hsame]
      obtain ⟨bitmap, heq, hbits⟩ := ih img
      refine ⟨bitmap, heq, fun x => ?_⟩
      rw [hbits x, List.forall_mem_cons]
      refine and_congr_right fun _ => ⟨fun hx => ⟨fun hb0 hlo => ?_, hx⟩, fun hx => hx.2⟩
      exact absurd hlo (Nat.not_le.mpr (hb.resolve_left hb0))
    · rw [not_or, Nat.not_lt] at hb
      have hfree : (if b = 0 then img else freeDataBlock img b) =
          img.setDataBit (b - DATA_START) false := by
        rw [if_neg hb.1, freeDataBlock, if_neg (Nat.not_lt.mpr hb.2)]
      rw [hfree]
      obtain ⟨bitmap, heq, hbits⟩ := ih (img.setDataBit (b - DATA_START) false)
      refine ⟨bitmap, heq, fun x => ?_⟩
      rw [hbits x, List.forall_mem_cons]
      have hbit : (img.setDataBit (b - DATA_START) false).dataBitmap x ↔
          img.dataBitmap x = true ∧ b - DATA_START ≠ x := by
        show Function.update img.dataBitmap (b - DATA_START) false x = true ↔ _
        by_cases hx : x = b - DATA_START
        · subst hx
          simp
        · rw [update_of_ne hx]
          exact ⟨fun hset => ⟨hset, fun heq => hx heq.symm⟩, fun hset => hset.1⟩
      rw [hbit]
      exact ⟨fun hx => ⟨hx.1.1, fun _ _ => hx.1.2, hx.2⟩,
        fun hx => ⟨⟨hx.1, hx.2.1 hb.1 hb.2⟩, hx.2.2⟩⟩

theorem mem_directFrom {node : DiskInode} {start : Nat} :
    b ∈ directFrom node start ↔ ∃ d, start ≤ d ∧ d < DIRECT_BLOCKS ∧ node.direct d = b := by
  unfold directFrom
  rw [List.mem_map]
  constructor
  · rintro ⟨d, hd, rfl⟩
    rw [List.mem_range'_1] at hd
    exact ⟨d, hd.1, by omega, rfl⟩
  · rintro ⟨d, hlo, hhi, rfl⟩
    exact ⟨d, List.mem_range'_1.mpr ⟨hlo, by omega⟩, rfl⟩

/-- Freeing the direct blocks of an inode from an index on unmarks exactly those. -/
theorem marked_freeBlocks (hi : InUse img i) (start : Nat) {bitmap : Nat → Bool}
    (hbits : ∀ x, bitmap x ↔ img.dataBitmap x ∧
      ∀ b ∈ directFrom (img.inodes i) start, b ≠ 0 → DATA_START ≤ b → b - DATA_START ≠ x)
    (himg : img'.dataBitmap = bitmap) (b : Nat) :
    Marked img' b ↔ Marked img b ∧ ∀ o : Nat × Nat, o.1 = i ∧ start ≤ o.2 →
      ownOf img o ≠ some b := by
  unfold Marked
  rw [himg, hbits]
  constructor
  · rintro ⟨hlo, hhi, hbit, hnot⟩
    refine ⟨⟨hlo, hhi, hbit⟩, ?_⟩
    rintro ⟨_, d⟩ ⟨rfl, hd⟩ hown
    obtain ⟨_, hlt, heq, hne⟩ := ownOf_some hown
    exact hnot b (mem_directFrom.mpr ⟨d, hd, hlt, heq⟩) hne hlo rfl
  · rintro ⟨⟨hlo, hhi, hbit⟩, hnot⟩
    refine ⟨hlo, hhi, hbit, fun b' hb' hne hlo' heq => ?_⟩
    obtain ⟨d, hd, hlt, rfl⟩ := mem_directFrom.mp hb'
    have hsame : (img.inodes i).direct d = b := by omega
    exact hnot (i, d) ⟨rfl, hd⟩ (hsame ▸ ownOf_eq hi hlt hne)

/-- The inode as `maybe_free_unlinked_inode` stores it. -/
def releasedInode (node : DiskInode) : DiskInode :=
  { node with type := .free, size := 0, direct := fun d =>
    if d < DIRECT_BLOCKS then 0 else node.direct d }

/-- The inode and its blocks are given back. -/
def freeInode (img : Image) (c : Nat) : Image :=
  ((freeBlocks img (directFrom (img.inodes c) 0)).storeInode c
    (releasedInode (img.inodes c))).setInodeBit c false

section Free

variable (h : Sane img) (hc : InUse img c) (hlinks : (img.inodes c).linkCount = 0)

theorem freeInode_fields (img : Image) (c : Nat) : (freeInode img c).blocks = img.blocks ∧
      (freeInode img c).inodes = Function.update img.inodes c (releasedInode (img.inodes c)) ∧
      (freeInode img c).inodeBitmap = Function.update img.inodeBitmap c false := by
  obtain ⟨bitmap, heq, _⟩ := freeBlocks_eq img (directFrom (img.inodes c) 0)
  unfold freeInode
  rw [heq]
  exact ⟨rfl, rfl, rfl⟩

theorem not_inUse_freeInode : ¬InUse (freeInode img c) c := by
  intro hu
  have hbit := hu.2
  rw [(freeInode_fields img c).2.2, update_self] at hbit
  cases hbit

/-- The others keep everything: no block changes. -/
theorem freeInode_kept (hj : j ≠ c) : Kept img (freeInode img c) j := by
  have hnode : (freeInode img c).inodes j = img.inodes j := by
    rw [(freeInode_fields img c).2.1, update_of_ne hj]
  refine ⟨⟨?_, ?_, ?_, fun d _ => ?_, fun _ d _ _ => ?_⟩, ?_⟩
  · rw [(freeInode_fields img c).2.2, update_of_ne hj]
  · rw [hnode]
  · rw [hnode]
  · rw [hnode]
  · rw [(freeInode_fields img c).1]
  · rw [hnode]

include h hc hlinks in
theorem Sane.free : Sane (freeInode img c) := by
  have hdead : ¬(Bigfs.tree img).live c := fun hl => hl.2 hlinks
  refine ⟨?_, ?_, ?_⟩
  · refine h.tree.congr ?_ ?_ ?_ ?_
    · rfl
    · intro j
      by_cases hjc : j = c
      · subst hjc
        exact ⟨fun hl => absurd hl.1 not_inUse_freeInode, fun hl => absurd hl hdead⟩
      · exact (freeInode_kept hjc).live
    · intro j hj
      have hjc : j ≠ c := fun heq => hdead (heq ▸ hj)
      exact (freeInode_kept hjc).dir
    · intro j k
      by_cases hjc : j = c
      · subst hjc
        -- It was not part of the tree, so it had no entries.
        rw [h.tree.entry_of_dead hdead]
        exact entryOf_of_not_inUse not_inUse_freeInode k
      · exact (freeInode_kept hjc).entry k
  · obtain ⟨bitmap, heq, hbits⟩ := freeBlocks_eq img (directFrom (img.inodes c) 0)
    apply h.blocks.release (p := fun o => o.1 = c ∧ 0 ≤ o.2)
    · rintro ⟨j, d⟩ ⟨rfl, _⟩
      exact ownOf_of_not_inUse not_inUse_freeInode d
    · rintro ⟨j, d⟩ hne
      exact (freeInode_kept (fun heq => hne ⟨heq, Nat.zero_le d⟩)).own d
    · apply marked_freeBlocks hc 0 hbits
      unfold freeInode
      rw [heq]
      rfl
  · intro j hj
    by_cases hjc : j = c
    · subst hjc
      have hself : (freeInode img j).inodes j = releasedInode (img.inodes j) := by
        rw [(freeInode_fields img j).2.1, update_self]
      have hbit : (freeInode img j).inodeBitmap j = false := by
        rw [(freeInode_fields img j).2.2, update_self]
      have htype : ((freeInode img j).inodes j).type = .free := by rw [hself]; rfl
      have hreg : ((freeInode img j).inodes j).type ≠ .regular := by rw [htype]; decide
      exact ⟨⟨fun _ => htype, fun _ => hbit⟩, fun hset => (nomatch hbit.symm.trans hset),
        fun hr => absurd hr hreg, fun hr => absurd hr hreg, fun hr => absurd hr hreg⟩
    · exact (freeInode_kept hjc).shape (h.shape j hj)

end Free

/-! ## §5. An entry moves. -/

/-- Only entries change, in the blocks of the directories `i` and `j`: the entry of `c` in
slot `k` of `i` becomes one in slot `k'` of `j`. -/
theorem Sane.move {name name' : List UInt8} (h : Sane img)
    (hinodes : img'.inodes = img.inodes) (hbits : img'.inodeBitmap = img.inodeBitmap)
    (hdata : img'.dataBitmap = img.dataBitmap) (hi : IsDir img i) (hj : IsDir img j)
    (hkept : ∀ l < INODE_COUNT, l ≠ i → l ≠ j → Elsewhere img img' l)
    (he : entryOf img i k = some (c, name)) (hnew : entryOf img' j k' = some (c, name'))
    (hgone : ¬(i = j ∧ k = k') → entryOf img' i k = none)
    (hold : ∀ e r, ¬(e = i ∧ r = k) → ¬(e = j ∧ r = k') → entryOf img' e r = entryOf img e r)
    (hempty : ∀ r, entryOf img c r = none) (hlink : (img.inodes j).linkCount ≠ 0) (hne : j ≠ c)
    (hfree : entryOf img j k' = none ∨ (j = i ∧ k' = k))
    (hname : ∀ r c', entryOf img j r ≠ some (c', name')) : Sane img' := by
  have hused : ∀ l, InUse img' l ↔ InUse img l := fun l => by
    unfold InUse
    rw [hbits]
  refine ⟨?_, ?_, ?_⟩
  · refine h.tree.move (d := i) (s := k) (c := c) (a := name) ?_ ?_ ?_ he hnew hgone hold hempty
      ⟨hj.1, hlink⟩ hj.2 hne hfree hname
    · rfl
    · intro l
      show InUse img' l ∧ _ ↔ InUse img l ∧ _
      rw [hused, hinodes]
    · intro l _
      show (img'.inodes l).type = _ ↔ (img.inodes l).type = _
      rw [hinodes]
  · apply h.blocks.congr
    · rintro ⟨l, d⟩
      exact ownOf_congr (by rw [hbits]) (by rw [hinodes])
    · intro b
      unfold Marked
      rw [hdata]
  · intro l hl
    have hdir : IsDir img l → Shape img' l := by
      intro hd
      refine (h.shape l hl).of_dir (by rw [hbits]) hd.2 ?_ (by rw [hinodes])
        (fun _ _ => by rw [hinodes])
      rw [hinodes]
      exact hd.2
    by_cases hli : l = i
    · exact hdir (hli ▸ hi)
    · by_cases hlj : l = j
      · exact hdir (hlj ▸ hj)
      · exact (h.kept hl (by rw [hbits]) (by rw [hinodes]) (hkept l hl hli hlj)).shape
          (h.shape l hl)

end BigOS.Fs.Bigfs
