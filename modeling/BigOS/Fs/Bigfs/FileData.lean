/-
  BigOS.Fs.Bigfs.FileData — the bytes of a file.

  A file is its blocks one after another, holes being zeros, up to its size.  The
  chunked loops of `read` and `write` are runs over these bytes: the first returns
  them, the second patches them.  Shrinking zeroes what remains of the last block, so
  beyond its size a file is zero, and growing exposes zeros only.

  Main results:
    • `readChunks_eq` — the loop of `read`,
    • `stageBytes_flat` — the loop of `write` that stages bytes,
    • `reserveBlocks_spec` — the loop of `write` that reserves blocks,
    • `Sane.written`, `Sane.truncated` — both keep `Sane`, the other inodes, and change
      the content as an array is written and resized.
-/
import BigOS.Lib.Padded
import BigOS.Fs.Bigfs.Changes
import BigOS.Fs.Bigfs.Operations

namespace BigOS.Fs.Bigfs

open BigOS.Lib Function List Padded

variable {bitmap : Nat → Bool} {count : Nat}

variable {img img' : Image} {i j d b k p x : Nat} {file : DiskInode} {bytes : List UInt8}

/-! ## §1. Bytes and content. -/

/-- Blocks one after another. -/
def flat (blocks : Nat → Block) (p : Nat) : UInt8 := blocks (p / BLOCK_SIZE) (p % BLOCK_SIZE)

/-- The blocks of a file; a hole is a block of zeros. -/
def blockData (img : Image) (file : DiskInode) (d : Nat) : Block :=
  if file.direct d = 0 then zeroBlock else img.blocks (file.direct d)

/-- The byte of a file at a position. -/
def fileByte (img : Image) (file : DiskInode) (p : Nat) : UInt8 := flat (blockData img file) p

/-- The bytes of a file up to its size. -/
def content (img : Image) (i : Nat) : List UInt8 :=
  (range (img.inodes i).size).map (fileByte img (img.inodes i))

/-- The positions of a file lie in its blocks. -/
theorem div_lt_blocks (hp : p < MAX_FILE_SIZE) : p / BLOCK_SIZE < DIRECT_BLOCKS :=
  Nat.div_lt_of_lt_mul hp

theorem length_content (img : Image) (i : Nat) : (content img i).length = (img.inodes i).size := by
  simp [content]

/-- The shape of a file, from its bytes. -/
theorem Shape.of_file (hbit : img.inodeBitmap i) (htype : (img.inodes i).type = .regular)
    (hsize : (img.inodes i).size ≤ MAX_FILE_SIZE)
    (hblocks : ∀ d < DIRECT_BLOCKS, (img.inodes i).direct d ≠ 0 →
      d * BLOCK_SIZE < (img.inodes i).size)
    (hzero : ∀ p < MAX_FILE_SIZE, (img.inodes i).size ≤ p → fileByte img (img.inodes i) p = 0) :
    Shape img i := by
  have hvals : BLOCK_SIZE = 512 ∧ DIRECT_BLOCKS = 8 ∧ MAX_FILE_SIZE = 4096 := ⟨rfl, rfl, rfl⟩
  refine ⟨?_, fun _ hdir => ?_, fun _ => hsize, fun _ => hblocks, fun _ d hd hne k hk hle => ?_⟩
  · rw [hbit, htype]
    decide
  · rw [htype] at hdir
    exact absurd hdir (by decide)
  · have hbyte := hzero (d * BLOCK_SIZE + k) (by rw [hvals.1] at hk ⊢; omega) hle
    have hdiv : (d * BLOCK_SIZE + k) / BLOCK_SIZE = d := by rw [hvals.1] at hk ⊢; omega
    have hmod : (d * BLOCK_SIZE + k) % BLOCK_SIZE = k := by rw [hvals.1] at hk ⊢; omega
    unfold fileByte flat blockData at hbyte
    rwa [hdiv, hmod, if_neg hne] at hbyte

section

variable (hs : Shape img i) (htype : (img.inodes i).type = .regular) (hp : p < MAX_FILE_SIZE)

include hs htype hp

/-- Beyond its size a file is zero. -/
theorem Shape.fileByte_beyond (hle : (img.inodes i).size ≤ p) :
    fileByte img (img.inodes i) p = 0 := by
  unfold fileByte flat blockData
  split
  · rfl
  · rename_i hne
    apply hs.fileTail htype _ (div_lt_blocks hp) hne _ (Nat.mod_lt _ (by decide))
    rwa [Nat.div_add_mod']

theorem getD_content : (content img i).getD p 0 = fileByte img (img.inodes i) p := by
  unfold content
  rw [getD_map_range]
  split
  · rfl
  · rename_i hle
    exact (hs.fileByte_beyond htype hp (Nat.not_lt.mp hle)).symm

end

/-- An inode that is kept has the bytes it had. -/
theorem Body.content (h : Body img img' i) (hu : img.inodeBitmap i)
    (hsize : (img.inodes i).size ≤ MAX_FILE_SIZE) : Bigfs.content img' i = Bigfs.content img i := by
  unfold Bigfs.content
  rw [h.size]
  apply map_congr_left
  intro p hp
  have hd := div_lt_blocks ((mem_range.mp hp).trans_le hsize)
  unfold fileByte flat blockData
  rw [h.direct _ hd]
  split
  · rfl
  · rename_i hne
    rw [h.blocks hu _ hd hne]

/-! ## §2. Reading. -/

/-- Within a chunk the block stays the same. -/
theorem chunk_div_mod (pos : Nat) {chunk : Nat} (hchunk : pos % BLOCK_SIZE + chunk ≤ BLOCK_SIZE)
    (hk : k < chunk) : (pos + k) / BLOCK_SIZE = pos / BLOCK_SIZE ∧
      (pos + k) % BLOCK_SIZE = pos % BLOCK_SIZE + k := by
  simp only [BLOCK_SIZE] at hchunk ⊢
  omega

theorem readChunks_eq (fuel pos remaining : Nat) (hfuel : remaining ≤ fuel)
    (hmax : pos + remaining ≤ MAX_FILE_SIZE) : readChunks img file fuel pos remaining =
      (range remaining).map (fun k => fileByte img file (pos + k)) := by
  -- Each chunk takes at least one byte of the fuel.
  induction fuel generalizing pos remaining with
  | zero =>
    have hzero : remaining = 0 := by omega
    rw [hzero]
    rfl
  | succ fuel ih =>
    unfold readChunks
    by_cases hrem : remaining = 0
    · rw [if_pos (Or.inl hrem), hrem]
      rfl
    have hlt : pos / BLOCK_SIZE < DIRECT_BLOCKS := div_lt_blocks (by omega)
    rw [if_neg (not_or.mpr ⟨hrem, Nat.not_le.mpr hlt⟩)]
    have hmod : pos % BLOCK_SIZE < BLOCK_SIZE := Nat.mod_lt _ (by decide)
    generalize hchunk : min (BLOCK_SIZE - pos % BLOCK_SIZE) remaining = chunk
    have hsplit : remaining = chunk + (remaining - chunk) := by omega
    have hrest := ih (pos + chunk) (remaining - chunk) (by omega) (by omega)
    simp only
    rw [hrest]
    conv_rhs => rw [hsplit, range_add, map_append, map_map]
    congr 1
    · apply map_congr_left
      intro k hk
      obtain ⟨hdiv, hmod⟩ := chunk_div_mod pos (by omega) (mem_range.mp hk)
      unfold fileByte flat blockData
      rw [hdiv, hmod]
      split <;> rfl
    · apply map_congr_left
      intro k _
      show fileByte img file (pos + chunk + k) = fileByte img file (pos + (chunk + k))
      rw [Nat.add_assoc]

/-- What `read` returns is a window of the content. -/
theorem readChunks_content {offset len : Nat} (hsize : (img.inodes i).size ≤ MAX_FILE_SIZE)
    (hoff : offset < (img.inodes i).size) :
    readChunks img (img.inodes i) (min ((img.inodes i).size - offset) len) offset
      (min ((img.inodes i).size - offset) len) = ((content img i).drop offset).take len := by
  rw [readChunks_eq _ _ _ le_rfl (by omega)]
  apply ext 0
  · simp [length_content, Nat.min_comm]
  · intro p
    rw [getD_map_range, getD_window]
    unfold content
    rw [getD_map_range]
    by_cases hp : p < len
    · rw [if_pos hp]
      congr 1
      rw [eq_iff_iff]
      omega
    · rw [if_neg hp, if_neg (by omega)]

/-! ## §3. Staging. -/

/-- A patch of one block is a patch of the bytes. -/
theorem flat_patch {staged : Nat → Block} {pos : Nat}
    (h : pos % BLOCK_SIZE + bytes.length ≤ BLOCK_SIZE) :
    flat (Function.update staged (pos / BLOCK_SIZE)
      (patch (staged (pos / BLOCK_SIZE)) (pos % BLOCK_SIZE) bytes)) =
      patch (flat staged) pos bytes := by
  funext p
  unfold flat
  by_cases hp : p / BLOCK_SIZE = pos / BLOCK_SIZE
  · -- The same block: offsets in it are offsets in the file.
    have hle : pos % BLOCK_SIZE ≤ p % BLOCK_SIZE ↔ pos ≤ p := by
      simp only [BLOCK_SIZE] at hp ⊢
      omega
    have hsub : p % BLOCK_SIZE - pos % BLOCK_SIZE = p - pos := by
      simp only [BLOCK_SIZE] at hp ⊢
      omega
    unfold patch
    rw [hp, update_self, hsub]
    by_cases hpos : pos ≤ p
    · rw [if_pos (hle.mpr hpos), if_pos hpos]
      simp only [hp]
    · rw [if_neg (fun h => hpos (hle.mp h)), if_neg hpos]
      simp only [hp]
  · rw [update_of_ne hp, patch_outside]
    simp only [BLOCK_SIZE] at hp h
    omega

/-- A patch in two parts. -/
theorem patch_append (block : Block) (pos n : Nat) (bytes : List UInt8) :
    patch (patch block pos (bytes.take n)) (pos + n) (bytes.drop n) = patch block pos bytes := by
  funext p
  unfold patch
  rw [getElem?_take, getElem?_drop]
  by_cases hp : pos + n ≤ p
  · have hpos : pos ≤ p := by omega
    have hidx : n + (p - (pos + n)) = p - pos := by omega
    have hlt : ¬p - pos < n := by omega
    rw [if_pos hp, if_pos hpos, if_pos hpos, if_neg hlt, hidx]
    rfl
  · rw [if_neg hp]
    by_cases hpos : pos ≤ p
    · rw [if_pos hpos, if_pos hpos, if_pos (by omega)]
    · rw [if_neg hpos, if_neg hpos]

theorem stageBytes_flat (fuel : Nat) (staged : Nat → Block) (pos : Nat) (bytes : List UInt8)
    (hfuel : bytes.length ≤ fuel) :
    flat (stageBytes fuel staged pos bytes) = patch (flat staged) pos bytes := by
  induction fuel generalizing staged pos bytes with
  | zero =>
    have hnil : bytes = [] := eq_nil_of_length_eq_zero (by omega)
    subst hnil
    funext p
    exact (patch_outside (by simp only [length_nil]; omega)).symm
  | succ fuel ih =>
    unfold stageBytes
    by_cases hnil : bytes = []
    · subst hnil
      funext p
      exact (patch_outside (by simp only [length_nil]; omega)).symm
    have hpos : 0 < bytes.length := length_pos_iff.mpr hnil
    have hmod : pos % BLOCK_SIZE < BLOCK_SIZE := Nat.mod_lt _ (by decide)
    rw [if_neg hnil]
    generalize hchunk : min (BLOCK_SIZE - pos % BLOCK_SIZE) bytes.length = chunk
    have hlen : (bytes.take chunk).length = chunk := by
      rw [length_take]
      omega
    rw [ih _ _ _ (by rw [length_drop]; omega), flat_patch (by rw [hlen]; omega)]
    exact patch_append _ _ _ _

/-! ## §4. Reserving. -/

theorem bitmapAlloc_some (h : bitmapAlloc bitmap count = some x) :
    x < count ∧ bitmap x = false := by
  have hmem := mem_range.mp (mem_of_find?_eq_some h)
  have hp := find?_some h
  exact ⟨hmem, by simpa using hp⟩

/-- Taking a block leaves one fewer. -/
theorem bitmapCountFree_update (hx : x < count) (hfree : bitmap x = false) :
    bitmapCountFree (Function.update bitmap x true) count + 1 = bitmapCountFree bitmap count := by
  have hvacate := Slots.occupied_vacate (p := fun y => !bitmap y)
    (q := fun y => !Function.update bitmap x true y) hx (by simp [hfree]) (by simp)
    (fun y _ hy => by rw [update_of_ne hy])
  exact hvacate

/-- What the loop that reserves blocks leaves: blocks for the indices of the span that had
none. -/
structure Reserved (img : Image) (i : Nat) (direct : Nat → Nat) (span : List Nat) (img' : Image)
    (direct' : Nat → Nat) : Prop where
  image : img' = { img with dataBitmap := img'.dataBitmap }
  old : ∀ d, d ∉ span ∨ (img.inodes i).direct d ≠ 0 → direct' d = direct d
  fresh : ∀ d ∈ span, (img.inodes i).direct d = 0 → direct' d ≠ 0 ∧ ¬Marked img (direct' d)
  tidy : Tidy (ownOf (img.withDirect i direct')) (Marked img')

theorem reserveBlocks_spec (hi : InUse img i) (span : List Nat) (hnodup : span.Nodup)
    (hlt : ∀ d ∈ span, d < DIRECT_BLOCKS) (direct : Nat → Nat)
    (hdirect : ∀ d ∈ span, (img.inodes i).direct d = 0 → direct d = 0)
    (htidy : Tidy (ownOf (img.withDirect i direct)) (Marked img))
    (hroom : span.countP (fun d => (img.inodes i).direct d == 0) ≤
      bitmapCountFree img.dataBitmap DATA_BLOCK_COUNT) (allocated : List Nat) : ∃ img' direct' new,
      reserveBlocks
        (img.inodes i) span img direct allocated = .ok (img', direct', allocated ++ new) ∧
      Reserved img i direct span img' direct' ∧ (new = [] → img' = img) := by
  induction span generalizing img direct allocated with
  | nil =>
    refine ⟨img, direct, [], by rw [append_nil]; rfl, ⟨rfl, fun _ _ => rfl, ?_, htidy⟩,
      fun _ => rfl⟩
    exact fun d hd => absurd hd (by simp)
  | cons e rest ih =>
    obtain ⟨henot, hnodup⟩ := nodup_cons.mp hnodup
    have hrest : ∀ d ∈ rest, d < DIRECT_BLOCKS := fun d hd => hlt d (mem_cons_of_mem _ hd)
    unfold reserveBlocks
    rw [countP_cons] at hroom
    by_cases hzero : (img.inodes i).direct e = 0
    · -- The file lacks this block, and one is free.
      rw [if_pos (by simpa using hzero)] at hroom
      rw [if_neg (by simpa using hzero)]
      cases halloc : bitmapAlloc img.dataBitmap DATA_BLOCK_COUNT with
      | none =>
        have hnone : bitmapCountFree img.dataBitmap DATA_BLOCK_COUNT = 0 :=
          countP_eq_zero.mpr (find?_eq_none.mp halloc)
        omega
      | some x =>
        obtain ⟨hx, hfree⟩ := bitmapAlloc_some halloc
        have hres : reserveDataBlock img = some (DATA_START + x, img.setDataBit x true) := by
          rw [reserveDataBlock, halloc]
          rfl
        have hcount := bitmapCountFree_update hx hfree
        have htidy := tidy_withDirect hi (hlt e (mem_cons_self ..)) hx hfree
          (hdirect e (mem_cons_self ..) hzero) htidy
        have hdirect' : ∀ d ∈ rest, (img.inodes i).direct d = 0 →
            Function.update direct e (DATA_START + x) d = 0 := by
          intro d hd hd0
          rw [update_of_ne (fun heq : d = e => henot (heq ▸ hd))]
          exact hdirect d (mem_cons_of_mem _ hd) hd0
        have hroom' : rest.countP (fun d => ((img.setDataBit x true).inodes i).direct d == 0) ≤
            bitmapCountFree (img.setDataBit x true).dataBitmap DATA_BLOCK_COUNT := by
          show rest.countP (fun d => (img.inodes i).direct d == 0) ≤
            bitmapCountFree (Function.update img.dataBitmap x true) DATA_BLOCK_COUNT
          omega
        have hi' : InUse (img.setDataBit x true) i := hi
        obtain ⟨img', direct', new, heq, hr, _⟩ :=
          ih hi' hnodup hrest _ hdirect' htidy hroom' (allocated ++ [DATA_START + x])
        refine ⟨img', direct', (DATA_START + x) :: new, ?_, ?_, fun h => absurd h (by simp)⟩
        · rw [hres]
          show reserveBlocks (img.inodes i) rest (img.setDataBit x true) _ _ = _
          rw [show img.inodes i = (img.setDataBit x true).inodes i from rfl, heq, append_assoc]
          rfl
        · refine ⟨hr.image, fun d hd => ?_, fun d hd hd0 => ?_, hr.tidy⟩
          · have hde : d ≠ e := by
              rintro rfl
              exact hd.elim (fun hmem => hmem (mem_cons_self ..)) (fun hne => hne hzero)
            rw [hr.old d (hd.imp_left fun hmem hin => hmem (mem_cons_of_mem _ hin)),
              update_of_ne hde]
          · by_cases hde : d = e
            · subst hde
              rw [hr.old d (.inl henot), update_self]
              exact ⟨by have : DATA_START = 43 := rfl; omega, not_marked_new hfree⟩
            · obtain ⟨hne, hnot⟩ := hr.fresh d ((mem_cons.mp hd).resolve_left hde) hd0
              exact ⟨hne, fun hm => hnot ((marked_setDataBit hx _).mpr (.inl hm))⟩
    · -- The file has this block.
      rw [if_neg (by simpa using hzero)] at hroom
      rw [if_pos hzero]
      obtain ⟨img', direct', new, heq, hr, hsame⟩ := ih hi hnodup hrest direct
        (fun d hd => hdirect d (mem_cons_of_mem _ hd)) htidy hroom allocated
      refine ⟨img', direct', new, heq, ⟨hr.image, fun d hd => ?_, fun d hd hd0 => ?_, hr.tidy⟩,
        hsame⟩
      · exact hr.old d (hd.imp_left fun hmem hin => hmem (mem_cons_of_mem _ hin))
      · refine hr.fresh d ((mem_cons.mp hd).resolve_left ?_) hd0
        rintro rfl
        exact hzero hd0

/-! ## §5. A file changes. -/

/-- A change of one file: if it leaves the blocks of the others, the structure is kept as
soon as the blocks are and the file has its shape. -/
theorem Sane.fileChange (h : Sane img) (hreg : (img.inodes i).type = .regular)
    (hbits : img'.inodeBitmap = img.inodeBitmap)
    (hothers : ∀ j, j ≠ i → img'.inodes j = img.inodes j) (htype : (img'.inodes i).type = .regular)
    (hlinks : (img'.inodes i).linkCount = (img.inodes i).linkCount)
    (helse : ∀ j, j ≠ i → Elsewhere img img' j) (htidy : Tidy (ownOf img') (Marked img'))
    (hshape : Shape img' i) : Sane img' ∧ ∀ j < INODE_COUNT, j ≠ i → Kept img img' j := by
  have hused : ∀ j, InUse img' j ↔ InUse img j := fun j => by
    unfold InUse
    rw [hbits]
  have hkept : ∀ j < INODE_COUNT, j ≠ i → Kept img img' j := fun j hj hji =>
    h.kept hj (by rw [hbits]) (hothers j hji) (helse j hji)
  have hnode : ∀ j, (img'.inodes j).type = (img.inodes j).type ∧
      (img'.inodes j).linkCount = (img.inodes j).linkCount := by
    intro j
    by_cases hji : j = i
    · subst hji
      exact ⟨htype.trans hreg.symm, hlinks⟩
    · rw [hothers j hji]
      exact ⟨rfl, rfl⟩
  refine ⟨⟨?_, htidy, ?_⟩, hkept⟩
  · refine h.tree.congr ?_ ?_ ?_ ?_
    · rfl
    · intro j
      show InUse img' j ∧ _ ↔ InUse img j ∧ _
      rw [hused, (hnode j).2]
    · intro j _
      show (img'.inodes j).type = _ ↔ (img.inodes j).type = _
      rw [(hnode j).1]
    · intro j k
      show entryOf img' j k = entryOf img j k
      by_cases hj : InUse img j
      · by_cases hji : j = i
        · -- A file has no entries.
          subst hji
          have hno : ¬IsDir img j := fun hd => absurd (hd.2.symm.trans hreg) (by decide)
          have hno' : ¬IsDir img' j := fun hd => absurd (hd.2.symm.trans htype) (by decide)
          rw [entryOf, if_neg (fun hx => hno' hx.1), entryOf, if_neg (fun hx => hno hx.1)]
        · exact (hkept j hj.1 hji).entry k
      · rw [entryOf_of_not_inUse hj, entryOf_of_not_inUse (fun hu => hj ((hused j).mp hu))]
  · intro j hj
    by_cases hji : j = i
    · exact hji ▸ hshape
    · exact (hkept j hj hji).shape (h.shape j hj)

/-- A file gets new bytes: its blocks are its own, and none lies behind its end. -/
theorem Sane.replaced (h : Sane img) (hi : InUse img i)
    (hreg : (img.inodes i).type = .regular) (htype : file.type = .regular)
    (hlinks : file.linkCount = (img.inodes i).linkCount)
    (hinodes : img'.inodes = Function.update img.inodes i file)
    (hbits : img'.inodeBitmap = img.inodeBitmap)
    (hblocks : ∀ d < DIRECT_BLOCKS, file.direct d ≠ 0 → d * BLOCK_SIZE < file.size)
    (helse : ∀ j, j ≠ i → Elsewhere img img' j) (htidy : Tidy (ownOf img') (Marked img'))
    (hlen : bytes.length = file.size) (hmax : file.size ≤ MAX_FILE_SIZE)
    (hbytes : ∀ p < MAX_FILE_SIZE, fileByte img' file p = bytes.getD p 0) :
    Sane img' ∧ (∀ j < INODE_COUNT, j ≠ i → Kept img img' j) ∧ content img' i = bytes := by
  have hself : img'.inodes i = file := by
    rw [hinodes]
    exact update_self ..
  have hother : ∀ j, j ≠ i → img'.inodes j = img.inodes j := by
    intro j hj
    rw [hinodes]
    exact update_of_ne hj ..
  have hshape : Shape img' i := by
    apply Shape.of_file (by rw [hbits]; exact hi.2) <;> rw [hself]
    · exact htype
    · exact hmax
    · exact hblocks
    · intro p hp hle
      rw [hbytes p hp, getD_eq_default _ _ (hlen ▸ hle)]
  obtain ⟨hsane, hkept⟩ := h.fileChange hreg hbits hother (by rw [hself]; exact htype)
    (by rw [hself]; exact hlinks) helse htidy hshape
  refine ⟨hsane, hkept, ext 0 ?_ fun p => ?_⟩
  · rw [length_content, hself, hlen]
  · by_cases hp : p < MAX_FILE_SIZE
    · rw [getD_content hshape (by rw [hself]; exact htype) hp, hself, hbytes p hp]
    · rw [getD_eq_default, getD_eq_default]
      · omega
      · rw [length_content, hself]
        omega

/-- The blocks of the span that have numbers of their own are stored one by one. -/
theorem storeBlocks_eq (img : Image) (direct : Nat → Nat) (staged : Nat → Block) (span : List Nat)
    (hnodup : span.Nodup) (hinj : ∀ d ∈ span, ∀ e ∈ span, direct d = direct e → d = e) :
    ∃ blocks, storeBlocks img direct staged span = { img with blocks := blocks } ∧
      (∀ d ∈ span, blocks (direct d) = staged d) ∧
      ∀ b, b ∉ span.map direct → blocks b = img.blocks b := by
  induction span generalizing img with
  | nil => exact ⟨img.blocks, rfl, fun d hd => absurd hd (by simp), fun _ _ => rfl⟩
  | cons e rest ih =>
    obtain ⟨henot, hnodup⟩ := nodup_cons.mp hnodup
    obtain ⟨blocks, heq, hin, hout⟩ := ih (img.setBlock (direct e) (staged e)) hnodup
      (fun d hd e' he' => hinj d (mem_cons_of_mem _ hd) e' (mem_cons_of_mem _ he'))
    refine ⟨blocks, heq, fun d hd => ?_, fun b hb => ?_⟩
    · rcases mem_cons.mp hd with rfl | hd
      · -- The rest does not touch it.
        have hnot : direct d ∉ rest.map direct := by
          intro hmem
          obtain ⟨e', he', hde⟩ := mem_map.mp hmem
          have := hinj e' (mem_cons_of_mem _ he') d (mem_cons_self ..) hde
          exact henot (this ▸ he')
        rw [hout _ hnot]
        exact update_self ..
      · exact hin d hd
    · rw [map_cons, mem_cons, not_or] at hb
      rw [hout b hb.2]
      exact update_of_ne hb.1 ..

/-- The indices of the blocks that a write of `n` bytes covers. -/
def spanOf (offset n : Nat) : List Nat :=
  range' (offset / BLOCK_SIZE) ((offset + n - 1) / BLOCK_SIZE + 1 - offset / BLOCK_SIZE)

theorem mem_spanOf {offset n : Nat} (hn : 0 < n) :
    d ∈ spanOf offset n ↔ offset < (d + 1) * BLOCK_SIZE ∧ d * BLOCK_SIZE < offset + n := by
  unfold spanOf
  rw [mem_range'_1]
  simp only [BLOCK_SIZE]
  omega

theorem nodup_spanOf (offset n : Nat) : (spanOf offset n).Nodup := nodup_range' ..

section Write

variable {offset : Nat} {bytes : List UInt8} {direct : Nat → Nat} (committed : DiskInode)
  (h : Sane img) (hi : InUse img i) (hreg : (img.inodes i).type = .regular)
  (hne : bytes ≠ []) (hmax : offset + bytes.length ≤ MAX_FILE_SIZE)
  (hres : Reserved img i (img.inodes i).direct (spanOf offset bytes.length) img' direct)
  (htype : committed.type = .regular) (hlinks : committed.linkCount = (img.inodes i).linkCount)
  (hdirect : committed.direct = direct)
  (hsize : committed.size = max (img.inodes i).size (offset + bytes.length))

/-- The image that `write` commits. -/
def writtenImage (img img' : Image) (i offset : Nat) (bytes : List UInt8) (direct : Nat → Nat)
    (committed : DiskInode) : Image :=
  (storeBlocks img' direct
    (stageBytes bytes.length (fun d =>
      if (img.inodes i).direct d ≠ 0 then img'.blocks (direct d) else zeroBlock) offset bytes)
    (spanOf offset bytes.length)).storeInode i committed

include hmax hne in
theorem span_lt (hd : d ∈ spanOf offset bytes.length) : d < DIRECT_BLOCKS := by
  have hvals : BLOCK_SIZE = 512 ∧ DIRECT_BLOCKS = 8 ∧ MAX_FILE_SIZE = 4096 := ⟨rfl, rfl, rfl⟩
  rw [mem_spanOf (length_pos_iff.mpr hne), hvals.1] at hd
  omega

include hi hres in
/-- After the reservation, every block of the span has a number and no two share one. -/
theorem reserved_inj (hd : d < DIRECT_BLOCKS) (hd0 : direct d ≠ 0) {e : Nat}
    (he : e < DIRECT_BLOCKS) (heq : direct e = direct d) : e = d := by
  have hself := withDirect_self img i direct
  have hu : InUse (img.withDirect i direct) i := hi
  have hown := ownOf_eq hu hd (by rw [hself]; exact hd0)
  have hown' := ownOf_eq hu he (by rw [hself]; show direct e ≠ 0; rw [heq]; exact hd0)
  rw [hself] at hown hown'
  have hown' : ownOf (img.withDirect i direct) (i, e) = some (direct d) := heq ▸ hown'
  exact congrArg Prod.snd (hres.tidy.inj (i, e) (i, d) _ hown' hown)

include hres in
theorem reserved_ne_zero (hd : d ∈ spanOf offset bytes.length) : direct d ≠ 0 := by
  by_cases hzero : (img.inodes i).direct d = 0
  · exact (hres.fresh d hd hzero).1
  · rw [hres.old d (.inr hzero)]
    exact hzero

include hi hres hne hmax in
/-- The image, field by field. -/
theorem writtenImage_eq : ∃ blocks, writtenImage img img' i offset bytes direct committed =
        { img with
          dataBitmap := img'.dataBitmap
          blocks := blocks
          inodes := Function.update img.inodes i committed } ∧
      (∀ d ∈ spanOf offset bytes.length, blocks (direct d) =
        stageBytes bytes.length (blockData img (img.inodes i)) offset bytes d) ∧
      ∀ b, b ∉ (spanOf offset bytes.length).map direct → blocks b = img.blocks b := by
  -- The staging starts from the blocks of the file.
  have hstart : (fun d => if (img.inodes i).direct d ≠ 0 then img'.blocks (direct d) else zeroBlock)
      = blockData img (img.inodes i) := by
    funext d
    unfold blockData
    by_cases hd0 : (img.inodes i).direct d = 0
    · rw [if_neg (not_not.mpr hd0), if_pos hd0]
    · rw [if_pos hd0, if_neg hd0, hres.old d (.inr hd0), hres.image]
  obtain ⟨blocks, heq, hin, hout⟩ := storeBlocks_eq img' direct
    (stageBytes bytes.length (blockData img (img.inodes i)) offset bytes)
    (spanOf offset bytes.length) (nodup_spanOf ..) (fun d hd e he heq =>
      (reserved_inj hi hres (span_lt hne hmax hd) (reserved_ne_zero hres hd)
        (span_lt hne hmax he) heq.symm).symm)
  refine ⟨blocks, ?_, hin, fun b hb => ?_⟩
  · unfold writtenImage
    rw [hstart, heq, hres.image]
    rfl
  · rw [hout b hb, hres.image]

include hi hres hne hmax hdirect in
/-- The bytes of the file are patched. -/
theorem fileByte_written (hp : p < MAX_FILE_SIZE) :
    fileByte (writtenImage img img' i offset bytes direct committed) committed p =
      patch (fileByte img (img.inodes i)) offset bytes p := by
  obtain ⟨blocks, heq, hin, hout⟩ := writtenImage_eq committed hi hne hmax hres
  have hlen : 0 < bytes.length := length_pos_iff.mpr hne
  have hstage := stageBytes_flat bytes.length (blockData img (img.inodes i)) offset bytes le_rfl
  have hd8 := div_lt_blocks hp
  show flat (blockData _ committed) p = patch (flat (blockData img (img.inodes i))) offset bytes p
  by_cases hd : p / BLOCK_SIZE ∈ spanOf offset bytes.length
  · -- A block that was stored.
    rw [← hstage]
    have hval : committed.direct (p / BLOCK_SIZE) ≠ 0 := by
      rw [hdirect]
      exact reserved_ne_zero hres hd
    have hblock : blockData (writtenImage img img' i offset bytes direct committed) committed
        (p / BLOCK_SIZE) =
        stageBytes bytes.length (blockData img (img.inodes i)) offset bytes (p / BLOCK_SIZE) := by
      rw [blockData, if_neg hval, heq, hdirect]
      exact hin _ hd
    exact congrFun hblock _
  · -- A block that the write does not cover.
    have hout' : patch (flat (blockData img (img.inodes i))) offset bytes p =
        flat (blockData img (img.inodes i)) p := by
      apply patch_outside
      rw [mem_spanOf hlen] at hd
      simp only [BLOCK_SIZE] at hd
      omega
    rw [hout']
    have hold : committed.direct (p / BLOCK_SIZE) = (img.inodes i).direct (p / BLOCK_SIZE) := by
      rw [hdirect]
      exact hres.old _ (.inl hd)
    unfold flat blockData
    rw [hold, heq]
    split
    · rfl
    rename_i hd0
    refine congrFun (hout _ ?_) _
    intro hmem
    obtain ⟨e, he, hbe⟩ := mem_map.mp hmem
    have hed := reserved_inj hi hres hd8 (by rw [← hdirect, hold]; exact hd0)
      (span_lt hne hmax he) (hbe.trans (by rw [← hdirect, hold]))
    exact hd (hed ▸ he)

include h hi hreg hres hne hmax htype hlinks hdirect hsize in
theorem Sane.written : Sane (writtenImage img img' i offset bytes direct committed) ∧
      (∀ j < INODE_COUNT, j ≠ i →
        Kept img (writtenImage img img' i offset bytes direct committed) j) ∧
      content (writtenImage img img' i offset bytes direct committed) i =
        Padded.overwrite 0 (content img i) offset bytes := by
  have hlen : 0 < bytes.length := length_pos_iff.mpr hne
  have hs := h.shape i hi.1
  have hsize' := hs.fileSize hreg
  have hbyte := fun p hp =>
    fileByte_written (p := p) committed hi hne hmax hres hdirect hp
  obtain ⟨blocks, heq, hin, hout⟩ := writtenImage_eq committed hi hne hmax hres
  generalize writtenImage img img' i offset bytes direct committed = W at hbyte heq ⊢
  have hinodes : W.inodes = Function.update img.inodes i committed := by rw [heq]
  refine h.replaced hi hreg htype hlinks hinodes (by rw [heq]) (fun d hd hd0 => ?_)
    (fun j hj b => ?_) ?_ ?_ (by omega) fun p hp => ?_
  · -- A block is an old one or one of the span.
    rw [hdirect] at hd0
    by_cases hspan : d ∈ spanOf offset bytes.length
    · have := (mem_spanOf hlen).mp hspan
      omega
    · rw [hres.old d (.inl hspan)] at hd0
      have := hs.fileBlocks hreg d hd hd0
      omega
  · -- What is stored belongs to the file or was free.
    by_cases hb : b ∈ (spanOf offset bytes.length).map direct
    · obtain ⟨d, hd, rfl⟩ := mem_map.mp hb
      by_cases hd0 : (img.inodes i).direct d = 0
      · exact .inr (.inl (hres.fresh d hd hd0).2)
      · exact .inr (.inr ⟨i, d, hj.symm, hi, span_lt hne hmax hd, (hres.old d (.inr hd0)).symm⟩)
    · left
      rw [heq]
      exact hout b hb
  · refine hres.tidy.congr ?_ ?_
    · rintro ⟨j, d⟩
      refine ownOf_congr ?_ ?_
      · rw [heq]
        rfl
      rw [hinodes]
      by_cases hji : j = i
      · subst hji
        rw [update_self, withDirect_self, hdirect]
      · rw [update_of_ne hji, withDirect_of_ne _ hji]
    · intro b
      unfold Marked
      rw [heq]
  · rw [length_overwrite, length_content, hsize]
  · rw [hbyte p hp, getD_overwrite, getD_content hs hreg hp]
    by_cases hrange : offset ≤ p ∧ p < offset + bytes.length
    · rw [if_pos hrange]
      obtain ⟨q, rfl⟩ := Nat.exists_eq_add_of_le hrange.1
      rw [patch_inside (by omega), Nat.add_sub_cancel_left, getD_eq_getElem]
    · rw [if_neg hrange, patch_outside (by omega)]

end Write

/-! ## §6. A file is cut or grown. -/

/-- The number of blocks that `truncate` keeps. -/
def keptBlocks (length : Nat) : Nat := if length = 0 then 0 else (length - 1) / BLOCK_SIZE + 1

/-- The block whose rest `truncate` zeroes, or zero. -/
def tailBlock (file : DiskInode) (length : Nat) : Nat :=
  if length < file.size ∧ length % BLOCK_SIZE ≠ 0 ∧ length / BLOCK_SIZE < DIRECT_BLOCKS
  then file.direct (length / BLOCK_SIZE) else 0

/-- The image that `truncate` commits. -/
def truncatedImage (img : Image) (i length : Nat) (committed : DiskInode) : Image :=
  let tail := tailBlock (img.inodes i) length
  freeBlocks
    (if tail = 0 then img.storeInode i committed
    else (img.storeInode i committed).setBlock tail
      (patch (img.blocks tail) (length % BLOCK_SIZE)
        (replicate (BLOCK_SIZE - length % BLOCK_SIZE) 0)))
    (directFrom (img.inodes i) (keptBlocks length))

section Truncate

variable {length : Nat} (committed : DiskInode) (h : Sane img) (hi : InUse img i)
  (hreg : (img.inodes i).type = .regular) (hmax : length ≤ MAX_FILE_SIZE)
  (htype : committed.type = .regular) (hlinks : committed.linkCount = (img.inodes i).linkCount)
  (hsize : committed.size = length)
  (hdirect : ∀ d, committed.direct d =
    if keptBlocks length ≤ d ∧ d < DIRECT_BLOCKS then 0 else (img.inodes i).direct d)

/-- A block is kept if it starts before the new end. -/
theorem lt_keptBlocks : d < keptBlocks length ↔ d * BLOCK_SIZE < length := by
  unfold keptBlocks
  simp only [BLOCK_SIZE]
  split <;> omega

/-- The image, field by field. -/
theorem truncatedImage_eq (img : Image) (i length : Nat) (committed : DiskInode) :
    ∃ bitmap blocks, truncatedImage img i length committed = { img with
          dataBitmap := bitmap, blocks := blocks
          inodes := Function.update img.inodes i committed } ∧ (∀ x, bitmap x ↔ img.dataBitmap x ∧
        ∀ b ∈ directFrom (img.inodes i) (keptBlocks length), b ≠ 0 → DATA_START ≤ b →
          b - DATA_START ≠ x) ∧
      (∀ b, b ≠ tailBlock (img.inodes i) length ∨ b = 0 → blocks b = img.blocks b) ∧
      (tailBlock (img.inodes i) length ≠ 0 → blocks (tailBlock (img.inodes i) length) =
        patch (img.blocks (tailBlock (img.inodes i) length)) (length % BLOCK_SIZE)
          (replicate (BLOCK_SIZE - length % BLOCK_SIZE) 0)) := by
  set node := img.inodes i
  set tail := tailBlock node length
  unfold truncatedImage
  by_cases htail : tail = 0
  · obtain ⟨bitmap, heq, hbits⟩ := freeBlocks_eq (img.storeInode i committed)
      (directFrom node (keptBlocks length))
    simp only
    rw [if_pos htail, heq]
    exact ⟨bitmap, img.blocks, rfl, hbits, fun _ _ => rfl, fun hne => absurd htail hne⟩
  · simp only
    rw [if_neg htail]
    generalize hpatch : patch (img.blocks tail) (length % BLOCK_SIZE)
      (replicate (BLOCK_SIZE - length % BLOCK_SIZE) 0) = patched
    obtain ⟨bitmap, heq, hbits⟩ := freeBlocks_eq
      ((img.storeInode i committed).setBlock tail patched)
      (directFrom node (keptBlocks length))
    rw [heq]
    refine ⟨bitmap, Function.update img.blocks tail patched, rfl, hbits,
      fun b hb => ?_, fun _ => update_self ..⟩
    refine update_of_ne ?_ ..
    rcases hb with hb | hb
    · exact hb
    · exact fun heq => htail (heq.symm.trans hb)

/-- The tail is a block of the file, in the middle of which the file will end. -/
theorem tailBlock_ne_zero (htail : tailBlock file length ≠ 0) :
    length < file.size ∧ length % BLOCK_SIZE ≠ 0 ∧ length / BLOCK_SIZE < DIRECT_BLOCKS ∧
      tailBlock file length = file.direct (length / BLOCK_SIZE) := by
  unfold tailBlock at htail ⊢
  split at htail
  · rename_i hcond
    rw [if_pos hcond]
    exact ⟨hcond.1, hcond.2.1, hcond.2.2, rfl⟩
  · exact absurd rfl htail

include h hi hreg hdirect in
/-- The bytes of the file up to the new end, and zeros. -/
theorem fileByte_truncated (hp : p < MAX_FILE_SIZE) :
    fileByte (truncatedImage img i length committed) committed p =
      if p < length then fileByte img (img.inodes i) p else 0 := by
  obtain ⟨bitmap, blocks, heq, _, hout, hin⟩ := truncatedImage_eq img i length committed
  have hd8 := div_lt_blocks hp
  by_cases hkeep : p / BLOCK_SIZE < keptBlocks length
  · have hold : committed.direct (p / BLOCK_SIZE) = (img.inodes i).direct (p / BLOCK_SIZE) := by
      rw [hdirect, if_neg (fun hk => Nat.not_lt.mpr hk.1 hkeep)]
    rw [lt_keptBlocks] at hkeep
    unfold fileByte flat blockData
    rw [hold, heq]
    by_cases hd0 : (img.inodes i).direct (p / BLOCK_SIZE) = 0
    · rw [if_pos hd0, if_pos hd0]
      split <;> rfl
    rw [if_neg hd0, if_neg hd0]
    show blocks _ _ = _
    by_cases hlt : p < length
    · -- A byte before the new end.
      rw [if_pos hlt]
      by_cases htail : (img.inodes i).direct (p / BLOCK_SIZE) = tailBlock (img.inodes i) length
      · have hne : tailBlock (img.inodes i) length ≠ 0 := htail ▸ hd0
        obtain ⟨_, _, hd', hdir⟩ := tailBlock_ne_zero hne
        have hdd := (h.direct_inj hi hi hd8 hd' hd0 (htail.trans hdir).symm).2
        rw [htail, hin hne, patch_outside]
        simp only [BLOCK_SIZE] at hdd ⊢
        omega
      · rw [hout _ (.inl htail)]
    · -- A byte behind it, in the block in which the file ends.
      rw [if_neg hlt]
      have hdd : p / BLOCK_SIZE = length / BLOCK_SIZE ∧ length % BLOCK_SIZE ≠ 0 ∧
          length % BLOCK_SIZE ≤ p % BLOCK_SIZE := by
        simp only [BLOCK_SIZE] at hkeep ⊢
        omega
      by_cases hshrink : length < (img.inodes i).size
      · have htail : tailBlock (img.inodes i) length = (img.inodes i).direct (p / BLOCK_SIZE) := by
          rw [hdd.1, tailBlock, if_pos ⟨hshrink, hdd.2.1, hdd.1 ▸ hd8⟩]
        have hmod : p % BLOCK_SIZE < BLOCK_SIZE := Nat.mod_lt _ (by decide)
        obtain ⟨q, hq⟩ := Nat.exists_eq_add_of_le hdd.2.2
        rw [← htail, hin (by rw [htail]; exact hd0), hq,
          patch_inside (by rw [length_replicate]; omega), getElem_replicate]
      · -- The file grows: these bytes were zero before.
        have htail : tailBlock (img.inodes i) length = 0 := by
          rw [tailBlock, if_neg (fun hc => hshrink hc.1)]
        rw [hout _ (.inl (by rw [htail]; exact hd0))]
        have hzero := (h.shape i hi.1).fileByte_beyond hreg hp (by omega)
        unfold fileByte flat blockData at hzero
        rwa [if_neg hd0] at hzero
  · -- A block that is gone.
    have hzero : committed.direct (p / BLOCK_SIZE) = 0 := by
      rw [hdirect, if_pos ⟨Nat.not_lt.mp hkeep, hd8⟩]
    have hge : ¬p < length := by
      rw [lt_keptBlocks] at hkeep
      simp only [BLOCK_SIZE] at hkeep
      omega
    unfold fileByte flat blockData
    rw [if_pos hzero, if_neg hge]
    rfl

include h hi hreg hmax htype hlinks hsize hdirect in
theorem Sane.truncated : Sane (truncatedImage img i length committed) ∧
      (∀ j < INODE_COUNT, j ≠ i → Kept img (truncatedImage img i length committed) j) ∧
      content (truncatedImage img i length committed) i = resize 0 (content img i) length := by
  have hs := h.shape i hi.1
  have hbyte := fun p hp => fileByte_truncated (p := p) committed h hi hreg hdirect hp
  obtain ⟨bitmap, blocks, heq, hbits, hout, hin⟩ := truncatedImage_eq img i length committed
  generalize truncatedImage img i length committed = T at hbyte heq ⊢
  have hinodes : T.inodes = Function.update img.inodes i committed := by rw [heq]
  refine h.replaced hi hreg htype hlinks hinodes (by rw [heq]) (fun d hd hd0 => ?_)
    (fun j hj b => ?_) ?_ ?_ (by omega) fun p hp => ?_
  · rw [hdirect] at hd0
    have hkeep : d < keptBlocks length := Nat.not_le.mp (fun hle => hd0 (if_pos ⟨hle, hd⟩))
    rw [hsize]
    exact lt_keptBlocks.mp hkeep
  · by_cases hb : b ≠ tailBlock (img.inodes i) length ∨ b = 0
    · left
      rw [heq]
      exact hout b hb
    · rw [not_or, not_not] at hb
      obtain ⟨_, _, hd, hdir⟩ := tailBlock_ne_zero (hb.1 ▸ hb.2)
      exact .inr (.inr ⟨i, _, hj.symm, hi, hd, hdir.symm.trans hb.1.symm⟩)
  · -- The pointers from `keptBlocks` on give up their blocks.
    apply h.blocks.release (p := fun o => o.1 = i ∧ keptBlocks length ≤ o.2)
    · rintro ⟨j, d⟩ ⟨rfl, hd⟩
      refine if_neg (fun ho => ho.2.2 ?_)
      rw [hinodes, update_self, hdirect, if_pos ⟨hd, ho.2.1⟩]
    · rintro ⟨j, d⟩ hnot
      refine ownOf_congr (by rw [heq]) ?_
      rw [hinodes]
      by_cases hji : j = i
      · subst hji
        rw [update_self, hdirect, if_neg (fun hd => hnot ⟨rfl, hd.1⟩)]
      · rw [update_of_ne hji]
    · exact marked_freeBlocks hi _ hbits (by rw [heq])
  · rw [length_resize, hsize]
  · rw [hbyte p hp, getD_resize, getD_content hs hreg hp]

end Truncate

end BigOS.Fs.Bigfs
