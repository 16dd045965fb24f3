/-
  BigOS.Fs.Bigfs.Structure — the structure of a bigfs image.

  The directories are a tree of names (`Lib.NameTree`), the direct blocks of the
  inodes own what the data bitmap marks (`Lib.Tidy`), and every inode has the shape
  of its type: directories are as long as their blocks, files have no blocks and no
  bytes other than zero beyond their size.

  A change is looked at inode by inode.  `Kept` says that it leaves an inode, its
  blocks included, and the invariants of such an inode carry over; what is left is
  the inode or two that the change is about.

  Main results:
    • `Sane` — the invariant,
    • `Body`, `Kept` — what most inodes are under a change,
    • `Sane.kept` — which inodes a change keeps,
    • `Touched` — images that differ in times only.
-/
import BigOS.Lib.NameTree
import BigOS.Lib.Ownership
import BigOS.Lib.Slots
import BigOS.Fs.Bigfs.Entries

namespace BigOS.Fs.Bigfs

open BigOS.Lib Function

variable {img img' : Image} {i j c d b k : Nat}

/-! ## §1. The invariant. -/

/-- The bit of the inode is set. -/
def InUse (img : Image) (i : Nat) : Prop := i < INODE_COUNT ∧ img.inodeBitmap i

instance (img : Image) (i : Nat) : Decidable (InUse img i) := by
  unfold InUse
  infer_instance

/-- The inode is a directory in use. -/
def IsDir (img : Image) (i : Nat) : Prop := InUse img i ∧ (img.inodes i).type = .directory

instance (img : Image) (i : Nat) : Decidable (IsDir img i) := by
  unfold IsDir
  infer_instance

/-- The entry in a slot of a directory. -/
def entryOf (img : Image) (i k : Nat) : Option (Nat × List UInt8) :=
  if IsDir img i ∧ k < DIR_SLOTS then slotEntry img (img.inodes i) k else none

/-- The names, from the root on.  An inode without links is not part of the tree. -/
def tree (img : Image) : NameTree Nat Nat (List UInt8) where
  root := ROOT_INODE
  live i := InUse img i ∧ (img.inodes i).linkCount ≠ 0
  dir i := (img.inodes i).type = .directory
  entry := entryOf img

/-- The block that a direct pointer of an inode has. -/
def ownOf (img : Image) (o : Nat × Nat) : Option Nat :=
  if InUse img o.1 ∧ o.2 < DIRECT_BLOCKS ∧ (img.inodes o.1).direct o.2 ≠ 0 then
    some ((img.inodes o.1).direct o.2)
  else none

/-- The data block is marked in the bitmap. -/
def Marked (img : Image) (b : Nat) : Prop :=
  DATA_START ≤ b ∧ b < TOTAL_BLOCKS ∧ img.dataBitmap (b - DATA_START)

/-- What the type of an inode says about its size, blocks and bytes. -/
structure Shape (img : Image) (i : Nat) : Prop where
  free : img.inodeBitmap i = false ↔ (img.inodes i).type = .free
  dirSize : img.inodeBitmap i → (img.inodes i).type = .directory → (img.inodes i).size =
    BLOCK_SIZE * Slots.occupied DIRECT_BLOCKS (fun d => (img.inodes i).direct d != 0)
  fileSize : (img.inodes i).type = .regular → (img.inodes i).size ≤ MAX_FILE_SIZE
  fileBlocks : (img.inodes i).type = .regular → ∀ d < DIRECT_BLOCKS,
    (img.inodes i).direct d ≠ 0 → d * BLOCK_SIZE < (img.inodes i).size
  fileTail : (img.inodes i).type = .regular → ∀ d < DIRECT_BLOCKS,
    (img.inodes i).direct d ≠ 0 → ∀ k < BLOCK_SIZE, (img.inodes i).size ≤ d * BLOCK_SIZE + k →
      img.blocks ((img.inodes i).direct d) k = 0

structure Sane (img : Image) : Prop where
  tree : NameTree.WellFormed (tree img)
  blocks : Tidy (ownOf img) (Marked img)
  shape : ∀ i < INODE_COUNT, Shape img i

/-! ## §2. What a change leaves of an inode. -/

/-- The inode is of the type and size it was, and has the blocks it had, with what was
in them. -/
structure Body (img img' : Image) (i : Nat) : Prop where
  bit : img'.inodeBitmap i = img.inodeBitmap i
  type : (img'.inodes i).type = (img.inodes i).type
  size : (img'.inodes i).size = (img.inodes i).size
  direct : ∀ d < DIRECT_BLOCKS, (img'.inodes i).direct d = (img.inodes i).direct d
  blocks : img.inodeBitmap i → ∀ d < DIRECT_BLOCKS, (img.inodes i).direct d ≠ 0 →
    img'.blocks ((img.inodes i).direct d) = img.blocks ((img.inodes i).direct d)

/-- The inode is also linked as it was. -/
structure Kept (img img' : Image) (i : Nat) : Prop extends Body img img' i where
  links : (img'.inodes i).linkCount = 0 ↔ (img.inodes i).linkCount = 0

namespace Body

theorem refl (img : Image) (i : Nat) : Body img img i :=
  ⟨rfl, rfl, rfl, fun _ _ => rfl, fun _ _ _ _ => rfl⟩

section

variable (h : Body img img' i) {img₂ : Image}

include h

theorem trans (h' : Body img' img₂ i) : Body img img₂ i where
  bit := h'.bit.trans h.bit
  type := h'.type.trans h.type
  size := h'.size.trans h.size
  direct d hd := (h'.direct d hd).trans (h.direct d hd)
  blocks hbit d hd hne := by
    have hb := h'.blocks (h.bit.trans hbit) d hd (by rw [h.direct d hd]; exact hne)
    rw [h.direct d hd] at hb
    exact hb.trans (h.blocks hbit d hd hne)

theorem inUse : InUse img' i ↔ InUse img i := by
  unfold InUse
  rw [h.bit]

theorem isDir : IsDir img' i ↔ IsDir img i := by
  unfold IsDir
  rw [h.inUse, h.type]

theorem dir : (tree img').dir i ↔ (tree img).dir i := by
  show (img'.inodes i).type = _ ↔ (img.inodes i).type = _
  rw [h.type]

theorem entry (k : Nat) : (tree img').entry i k = (tree img).entry i k := by
  show entryOf img' i k = entryOf img i k
  unfold entryOf
  by_cases hk : IsDir img i ∧ k < DIR_SLOTS
  · rw [if_pos hk, if_pos ⟨h.isDir.mpr hk.1, hk.2⟩]
    have hdiv := slot_div_lt hk.2
    apply slotEntry_congr (h.direct _ hdiv)
    exact fun hne => h.blocks hk.1.1.2 _ hdiv hne
  · rw [if_neg hk, if_neg (fun hk' => hk ⟨h.isDir.mp hk'.1, hk'.2⟩)]

theorem own (d : Nat) : ownOf img' (i, d) = ownOf img (i, d) := by
  unfold ownOf
  by_cases hd : d < DIRECT_BLOCKS
  · simp only [h.inUse, h.direct d hd]
  · rw [if_neg (fun hk => hd hk.2.1), if_neg (fun hk => hd hk.2.1)]

theorem shape (hs : Shape img i) : Shape img' i where
  free := by rw [h.bit, h.type]; exact hs.free
  dirSize hbit htype := by
    rw [h.bit] at hbit
    rw [h.type] at htype
    rw [h.size, hs.dirSize hbit htype]
    congr 1
    exact Slots.occupied_congr (fun d hd => by rw [h.direct d hd])
  fileSize htype := by
    rw [h.type] at htype
    rw [h.size]
    exact hs.fileSize htype
  fileBlocks htype d hd hne := by
    rw [h.type] at htype
    rw [h.direct d hd] at hne
    rw [h.size]
    exact hs.fileBlocks htype d hd hne
  fileTail htype d hd hne k hk hsize := by
    rw [h.type] at htype
    rw [h.direct d hd] at hne ⊢
    rw [h.size] at hsize
    have hbit : img.inodeBitmap i := by
      rw [← Bool.not_eq_false, hs.free, htype]
      exact fun heq => absurd heq (by decide)
    rw [h.blocks hbit d hd hne]
    exact hs.fileTail htype d hd hne k hk hsize

end

end Body

theorem Kept.refl (img : Image) (i : Nat) : Kept img img i := ⟨Body.refl img i, Iff.rfl⟩

theorem Kept.trans (h : Kept img img' i) (h' : Kept img' img₂ i) : Kept img img₂ i :=
  ⟨h.toBody.trans h'.toBody, h'.links.trans h.links⟩

theorem Kept.live (h : Kept img img' i) : (tree img').live i ↔ (tree img).live i := by
  show InUse img' i ∧ _ ↔ InUse img i ∧ _
  rw [h.inUse, ne_eq, ne_eq, h.links]

/-- Every inode is kept and so are the marks. -/
theorem Sane.congr (h : Sane img) (hkept : ∀ i, Kept img img' i)
    (hdata : img'.dataBitmap = img.dataBitmap) : Sane img' where
  tree := h.tree.congr rfl (fun i => (hkept i).live) (fun i _ => (hkept i).dir)
    (fun i k => (hkept i).entry k)
  blocks := h.blocks.congr (fun o => (hkept o.1).own o.2) (fun b => by
    unfold Marked
    rw [hdata])
  shape i hi := (hkept i).shape (h.shape i hi)

/-! ## §3. Blocks and their owners. -/

theorem ownOf_eq (hi : InUse img i) (hd : d < DIRECT_BLOCKS) (hne : (img.inodes i).direct d ≠ 0) :
    ownOf img (i, d) = some ((img.inodes i).direct d) := by
  unfold ownOf
  rw [if_pos ⟨hi, hd, hne⟩]

theorem ownOf_some {o : Nat × Nat} (h : ownOf img o = some b) :
    InUse img o.1 ∧ o.2 < DIRECT_BLOCKS ∧ (img.inodes o.1).direct o.2 = b ∧ b ≠ 0 := by
  unfold ownOf at h
  split at h
  · rename_i ho
    cases h
    exact ⟨ho.1, ho.2.1, rfl, ho.2.2⟩
  · cases h

/-- A block of an inode is a marked data block. -/
theorem Sane.marked (h : Sane img) (hi : InUse img i) (hd : d < DIRECT_BLOCKS)
    (hne : (img.inodes i).direct d ≠ 0) : Marked img ((img.inodes i).direct d) :=
  h.blocks.mem (i, d) _ (ownOf_eq hi hd hne)

/-- Two direct pointers do not share a block. -/
theorem Sane.direct_inj (h : Sane img) {d' : Nat} (hi : InUse img i) (hj : InUse img j)
    (hd : d < DIRECT_BLOCKS) (hd' : d' < DIRECT_BLOCKS) (hne : (img.inodes i).direct d ≠ 0)
    (heq : (img.inodes j).direct d' = (img.inodes i).direct d) : j = i ∧ d' = d := by
  have hown := ownOf_eq hi hd hne
  have hown' := ownOf_eq hj hd' (by rw [heq]; exact hne)
  rw [heq] at hown'
  have hpair := h.blocks.inj (j, d') (i, d) _ hown' hown
  exact ⟨congrArg Prod.fst hpair, congrArg Prod.snd hpair⟩

/-- Where a block changes, it is free or belongs to another inode. -/
def Elsewhere (img img' : Image) (i : Nat) : Prop :=
  ∀ b, img'.blocks b = img.blocks b ∨ ¬Marked img b ∨
    ∃ j d, j ≠ i ∧ InUse img j ∧ d < DIRECT_BLOCKS ∧ (img.inodes j).direct d = b

/-- An inode that the change does not store is kept, if its blocks are. -/
theorem Sane.kept (h : Sane img) (hi : i < INODE_COUNT)
    (hbit : img'.inodeBitmap i = img.inodeBitmap i) (hnode : img'.inodes i = img.inodes i)
    (hblocks : Elsewhere img img' i) : Kept img img' i := by
  refine ⟨⟨hbit, by rw [hnode], by rw [hnode], fun _ _ => by rw [hnode], ?_⟩, by rw [hnode]⟩
  intro hused d hd hne
  rcases hblocks ((img.inodes i).direct d) with heq | hfree | ⟨j, d', hji, hj, hd', heq⟩
  · exact heq
  · exact absurd (h.marked ⟨hi, hused⟩ hd hne) hfree
  · exact absurd (h.direct_inj ⟨hi, hused⟩ hj hd hd' hne heq).1 hji

/-- Inode numbers beyond the table. -/
theorem entryOf_of_not_inUse (h : ¬InUse img i) (k : Nat) : entryOf img i k = none :=
  if_neg (fun hk => h hk.1.1)

theorem ownOf_of_not_inUse (h : ¬InUse img i) (d : Nat) : ownOf img (i, d) = none :=
  if_neg (fun hk => h hk.1)

/-- What a pointer owns depends on the inode's bit and on the pointer. -/
theorem ownOf_congr (hbit : img'.inodeBitmap i = img.inodeBitmap i)
    (hd : (img'.inodes i).direct d = (img.inodes i).direct d) :
    ownOf img' (i, d) = ownOf img (i, d) := by
  have hu : InUse img' i ↔ InUse img i := by
    unfold InUse
    rw [hbit]
  simp only [ownOf, hu, hd]

/-! ## §4. Times. -/

/-- The inodes differ in their times only. -/
structure TimesOnly (old node : DiskInode) : Prop where
  type : node.type = old.type
  mode : node.mode = old.mode
  uid : node.uid = old.uid
  gid : node.gid = old.gid
  size : node.size = old.size
  linkCount : node.linkCount = old.linkCount
  direct : node.direct = old.direct

theorem TimesOnly.refl (node : DiskInode) : TimesOnly node node :=
  ⟨rfl, rfl, rfl, rfl, rfl, rfl, rfl⟩

/-- The images differ in times only. -/
structure Touched (img img' : Image) : Prop where
  inodeBitmap : img'.inodeBitmap = img.inodeBitmap
  dataBitmap : img'.dataBitmap = img.dataBitmap
  blocks : img'.blocks = img.blocks
  inodes : ∀ j, TimesOnly (img.inodes j) (img'.inodes j)

namespace Touched

theorem refl (img : Image) : Touched img img := ⟨rfl, rfl, rfl, fun _ => TimesOnly.refl _⟩

/-- An inode is stored with other times. -/
theorem store (h : Touched img img') {node : DiskInode} (hnode : TimesOnly (img.inodes i) node) :
    Touched img (img'.storeInode i node) := by
  refine ⟨h.inodeBitmap, h.dataBitmap, h.blocks, fun j => ?_⟩
  show TimesOnly (img.inodes j) (Function.update img'.inodes i node j)
  by_cases hji : j = i
  · subst hji
    rw [update_self]
    exact hnode
  · rw [update_of_ne hji]
    exact h.inodes j

theorem kept (h : Touched img img') (i : Nat) : Kept img img' i :=
  ⟨⟨by rw [h.inodeBitmap], (h.inodes i).type, (h.inodes i).size,
    fun _ _ => by rw [(h.inodes i).direct], fun _ _ _ _ => by rw [h.blocks]⟩,
    by rw [(h.inodes i).linkCount]⟩

theorem sane (h : Touched img img') (hs : Sane img) : Sane img' := hs.congr h.kept h.dataBitmap

end Touched

/-! ## §5. Slots of different directories. -/

/-- Another slot is elsewhere: in another block, or at another place in it. -/
theorem Sane.slot_apart (h : Sane img) {k' : Nat} (hi : InUse img i) (hk : k < DIR_SLOTS)
    (hb : slotBlock (img.inodes i) k ≠ 0) (hj : InUse img j) (hk' : k' < DIR_SLOTS)
    (hne : ¬(j = i ∧ k' = k)) : ¬(slotBlock (img.inodes j) k' = slotBlock (img.inodes i) k ∧
      k' % DIRENTS_PER_BLOCK = k % DIRENTS_PER_BLOCK) := by
  rintro ⟨hblock, hmod⟩
  obtain ⟨hji, hdiv⟩ := h.direct_inj hi hj (slot_div_lt hk) (slot_div_lt hk') hb hblock
  exact hne ⟨hji, Nat.ext_div_mod hdiv hmod⟩

/-- A write to a slot's block is elsewhere for all but the directory. -/
theorem Sane.elsewhere_slot (hi : InUse img i) (hk : k < DIR_SLOTS) (hji : j ≠ i)
    (hblocks : ∀ b, b ≠ slotBlock (img.inodes i) k → img'.blocks b = img.blocks b) :
    Elsewhere img img' j := by
  intro b
  by_cases hb : b = slotBlock (img.inodes i) k
  · exact .inr (.inr ⟨i, k / DIRENTS_PER_BLOCK, hji.symm, hi, slot_div_lt hk, hb.symm⟩)
  · exact .inl (hblocks b hb)

/-- A directory whose inode is stored as it was, up to blocks: its shape is kept. -/
theorem Shape.of_dir (hs : Shape img i) (hbit : img'.inodeBitmap i = img.inodeBitmap i)
    (hdir : (img.inodes i).type = .directory) (htype : (img'.inodes i).type = .directory)
    (hsize : (img'.inodes i).size = (img.inodes i).size)
    (hdirect : ∀ d < DIRECT_BLOCKS, (img'.inodes i).direct d = (img.inodes i).direct d) :
    Shape img' i := by
  have hreg : (img'.inodes i).type ≠ .regular := by rw [htype]; decide
  refine ⟨?_, fun hused _ => ?_, fun hr => absurd hr hreg, fun hr => absurd hr hreg,
    fun hr => absurd hr hreg⟩
  · rw [hbit, htype, ← hdir]
    exact hs.free
  · rw [hsize, hs.dirSize (hbit.symm.trans hused) hdir]
    congr 1
    exact Slots.occupied_congr (fun d hd => by rw [hdirect d hd])

end BigOS.Fs.Bigfs
