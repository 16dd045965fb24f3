/-
  BigOS.Fs.Bigfs.Entries — directory entries in the bytes of a block.

  An entry that is written reads back as written, and the other entries of the block
  read as before.  The searches over the slots of a directory find the first slot
  with a property.

  Main results:
    • `direntInode_set`, `direntName_set` — a written entry,
    • `patch_dirent_of_ne` — the other entries,
    • `findSlotWith_some`, `findSlotWith_none` — the searches,
    • `slotEntry` — what a slot says, and how writing a slot changes it.
-/
import BigOS.Fs.Bigfs.Image

namespace BigOS.Fs.Bigfs

open Function List

variable {block block' : Block} {e e' n : Nat} {name bytes : List UInt8} {child : Nat}

/-! ## §1. Patches. -/

theorem patch_outside {offset k : Nat}
    (h : k < offset ∨ offset + bytes.length ≤ k) : patch block offset bytes k = block k := by
  unfold patch
  split
  · rename_i hle
    rw [getElem?_eq_none (by omega)]
    rfl
  · rfl

theorem patch_inside {offset k : Nat} (h : k < bytes.length) :
    patch block offset bytes (offset + k) = bytes[k] := by
  unfold patch
  rw [if_pos (Nat.le_add_right ..), Nat.add_sub_cancel_left, getElem?_eq_getElem h]
  rfl

/-! ## §2. One entry. -/

section

variable (h : ∀ k < DIRENT_SIZE, block (e * DIRENT_SIZE + k) = block' (e * DIRENT_SIZE + k))

include h

theorem direntInode_congr : direntInode block e = direntInode block' e := by
  have hsize : DIRENT_SIZE = 32 := rfl
  have h0 := h 0 (by omega)
  unfold direntInode
  rw [Nat.add_zero] at h0
  rw [h0, h 1 (by omega), h 2 (by omega), h 3 (by omega)]

theorem direntName_congr : direntName block e = direntName block' e := by
  have hsize : DIRENT_SIZE = 32 ∧ DIRENT_NAME_MAX = 27 := ⟨rfl, rfl⟩
  unfold direntName
  congr 1
  apply map_congr_left
  intro k hk
  rw [mem_range] at hk
  rw [Nat.add_assoc]
  exact h (4 + k) (by omega)

end

theorem length_le32 (n : Nat) : (le32 n).length = 4 := rfl

/-- An entry takes up its own 32 bytes. -/
theorem length_dirent (n : Nat) (name : List UInt8) :
    (le32 n ++ nameField name).length = DIRENT_SIZE := by
  rfl

/-- Writing an entry leaves the bytes of the others. -/
theorem patch_dirent_of_ne (block : Block) (n : Nat) (name : List UInt8) (h : e' ≠ e) :
    ∀ k < DIRENT_SIZE, patch block (e * DIRENT_SIZE) (le32 n ++ nameField name)
      (e' * DIRENT_SIZE + k) = block (e' * DIRENT_SIZE + k) := by
  intro k hk
  apply patch_outside
  rw [length_dirent]
  simp only [DIRENT_SIZE] at hk ⊢
  omega

/-- The number in an entry that was written. -/
theorem direntInode_patch (hn : n < 2 ^ 32) (name : List UInt8) :
    direntInode (patch block (e * DIRENT_SIZE) (le32 n ++ nameField name)) e = n := by
  have hbyte : ∀ k < 4, ∀ hk : k < (le32 n).length,
      patch block (e * DIRENT_SIZE) (le32 n ++ nameField name) (e * DIRENT_SIZE + k) =
        (le32 n)[k] := by
    intro k hk4 hk
    rw [patch_inside (by rw [length_dirent]; exact lt_trans hk4 (by decide)),
      getElem_append_left hk]
  have h0 := hbyte 0 (by omega) (by rw [length_le32]; omega)
  have h1 := hbyte 1 (by omega) (by rw [length_le32]; omega)
  have h2 := hbyte 2 (by omega) (by rw [length_le32]; omega)
  have h3 := hbyte 3 (by omega) (by rw [length_le32]; omega)
  rw [Nat.add_zero] at h0
  unfold direntInode
  rw [h0, h1, h2, h3]
  simp only [le32, getElem_cons_zero, getElem_cons_succ, UInt8.toNat_ofNat']
  omega

/-- The name field of an entry that was written. -/
theorem direntName_patch (n : Nat) (hlen : name.length ≤ DIRENT_NAME_MAX)
    (hzero : (0 : UInt8) ∉ name) :
    direntName (patch block (e * DIRENT_SIZE) (le32 n ++ nameField name)) e = name := by
  -- The field is the name and zeros.
  have hfield : (range (DIRENT_NAME_MAX + 1)).map (fun k =>
      patch block (e * DIRENT_SIZE) (le32 n ++ nameField name) (e * DIRENT_SIZE + 4 + k)) =
        name ++ replicate (DIRENT_NAME_MAX + 1 - name.length) 0 := by
    apply ext_getElem
    · simp
      omega
    · intro k hk hk'
      rw [length_map, length_range] at hk
      have hin : 4 + k < (le32 n ++ nameField name).length := by
        rw [length_dirent]
        have hsize : DIRENT_SIZE = 32 ∧ DIRENT_NAME_MAX = 27 := ⟨rfl, rfl⟩
        omega
      rw [getElem_map, getElem_range, Nat.add_assoc, patch_inside hin,
        getElem_append_right (by rw [length_le32]; omega)]
      simp only [length_le32, Nat.add_sub_cancel_left, nameField, getElem_map,
        getElem_range, take_of_length_le hlen]
      by_cases hkn : k < name.length
      · rw [getElem_append_left hkn, getD_eq_getElem?_getD, getElem?_eq_getElem hkn]
        rfl
      · rw [getElem_append_right (by omega), getElem_replicate,
          getD_eq_getElem?_getD, getElem?_eq_none (by omega)]
        rfl
  unfold direntName
  rw [hfield, takeWhile_append_of_pos]
  · have hpos : DIRENT_NAME_MAX + 1 - name.length = (DIRENT_NAME_MAX - name.length) + 1 := by omega
    simp
  · intro c hc
    simp only [bne_iff_ne, ne_eq]
    rintro rfl
    exact hzero hc

theorem direntInode_set (hchild : child + 1 < 2 ^ 32) :
    direntInode (direntSet block e name child) e = child + 1 :=
  direntInode_patch hchild name

theorem direntName_set (hlen : name.length ≤ DIRENT_NAME_MAX) (hzero : (0 : UInt8) ∉ name) :
    direntName (direntSet block e name child) e = name :=
  direntName_patch (child + 1) hlen hzero

theorem direntInode_clear : direntInode (direntClear block e) e = 0 :=
  direntInode_patch (by decide) []

theorem direntInode_zero (e : Nat) : direntInode zeroBlock e = 0 := rfl

/-! ## §3. The slots of a directory. -/

variable {img img' : Image} {dir dir' : DiskInode} {k k' c b : Nat} {p : Block → Nat → Bool}

theorem findSlotWith_some (h : findSlotWith img dir p = some k) :
    k < DIR_SLOTS ∧ slotBlock dir k ≠ 0 ∧
      p (img.blocks (slotBlock dir k)) (k % DIRENTS_PER_BLOCK) := by
  unfold findSlotWith at h
  have hmem := mem_range.mp (mem_of_find?_eq_some h)
  have hp := find?_some h
  simp only [Bool.and_eq_true, bne_iff_ne] at hp
  exact ⟨hmem, hp.1, hp.2⟩

theorem findSlotWith_none (h : findSlotWith img dir p = none) (hk : k < DIR_SLOTS)
    (hb : slotBlock dir k ≠ 0) :
    p (img.blocks (slotBlock dir k)) (k % DIRENTS_PER_BLOCK) = false := by
  unfold findSlotWith at h
  rw [find?_eq_none] at h
  simpa [hb] using h k (mem_range.mpr hk)

/-- What a slot says: the inode and the name, if there is an entry. -/
def slotEntry (img : Image) (dir : DiskInode) (k : Nat) : Option (Nat × List UInt8) :=
  if slotBlock dir k = 0 ∨
      direntInode (img.blocks (slotBlock dir k)) (k % DIRENTS_PER_BLOCK) = 0 then none
  else
    some (direntInode (img.blocks (slotBlock dir k)) (k % DIRENTS_PER_BLOCK) - 1,
      direntName (img.blocks (slotBlock dir k)) (k % DIRENTS_PER_BLOCK))

theorem slotEntry_some (h : slotEntry img dir k = some (c, name)) : slotBlock dir k ≠ 0 ∧
      direntInode (img.blocks (slotBlock dir k)) (k % DIRENTS_PER_BLOCK) = c + 1 ∧
      direntName (img.blocks (slotBlock dir k)) (k % DIRENTS_PER_BLOCK) = name := by
  unfold slotEntry at h
  split at h
  · cases h
  rename_i hne
  rw [not_or] at hne
  have hpair := Option.some.inj h
  have hc := congrArg Prod.fst hpair
  have hn := congrArg Prod.snd hpair
  exact ⟨hne.1, by omega, hn⟩

/-- A slot without a block has no entry. -/
theorem slotEntry_of_zero (h : slotBlock dir k = 0) : slotEntry img dir k = none := by
  unfold slotEntry
  rw [if_pos (Or.inl h)]

/-- The entry of a slot depends on its block alone. -/
theorem slotEntry_congr (hslot : slotBlock dir' k = slotBlock dir k) (hblock : slotBlock dir k ≠ 0 →
      img'.blocks (slotBlock dir k) = img.blocks (slotBlock dir k)) :
    slotEntry img' dir' k = slotEntry img dir k := by
  unfold slotEntry
  rw [hslot]
  by_cases hb : slotBlock dir k = 0
  · simp [hb]
  · rw [hblock hb]

theorem dirLookup_some (h : dirLookup img dir name = some c) :
    ∃ k, dirFindSlot img dir name = some k ∧ k < DIR_SLOTS ∧
      slotEntry img dir k = some (c, name) := by
  obtain ⟨k, hfind, rfl⟩ := Option.map_eq_some_iff.mp h
  obtain ⟨hk, hb, hp⟩ := findSlotWith_some hfind
  simp only [Bool.and_eq_true, bne_iff_ne, beq_iff_eq] at hp
  refine ⟨k, hfind, hk, ?_⟩
  unfold slotEntry
  rw [if_neg (not_or.mpr ⟨hb, hp.1⟩), hp.2]

theorem dirLookup_none (h : dirLookup img dir name = none) (hk : k < DIR_SLOTS) (c : Nat) :
    slotEntry img dir k ≠ some (c, name) := by
  intro he
  obtain ⟨hb, hi, hn⟩ := slotEntry_some he
  have hnone : dirFindSlot img dir name = none := by
    cases hf : dirFindSlot img dir name with
    | none => rfl
    | some =>
      rw [dirLookup, hf] at h
      cases h
  have hp := findSlotWith_none hnone hk hb
  simp [hi, hn] at hp

theorem dirFreeSlot_some (h : dirFreeSlot img dir = some k) :
    k < DIR_SLOTS ∧ slotBlock dir k ≠ 0 ∧ slotEntry img dir k = none := by
  obtain ⟨hk, hb, hp⟩ := findSlotWith_some h
  refine ⟨hk, hb, ?_⟩
  unfold slotEntry
  rw [if_pos (Or.inr (by simpa using hp))]

theorem dirIsEmpty_true (h : dirIsEmpty img dir) (hk : k < DIR_SLOTS) :
    slotEntry img dir k = none := by
  unfold slotEntry
  by_cases hb : slotBlock dir k = 0
  · rw [if_pos (Or.inl hb)]
  · have hp := findSlotWith_none (Option.isNone_iff_eq_none.mp h) hk hb
    rw [if_pos (Or.inr (by simpa using hp))]

theorem setSlot_blocks_of_ne (h : b ≠ slotBlock dir k) (name : List UInt8)
    (child : Nat) : (setSlot img dir k name child).blocks b = img.blocks b :=
  update_of_ne h ..

theorem clearSlot_blocks_of_ne (h : b ≠ slotBlock dir k) :
    (clearSlot img dir k).blocks b = img.blocks b :=
  update_of_ne h ..

/-- A slot that was written says what was written. -/
theorem slotEntry_setSlot (hb : slotBlock dir k ≠ 0) (hchild : child + 1 < 2 ^ 32)
    (hlen : name.length ≤ DIRENT_NAME_MAX) (hzero : (0 : UInt8) ∉ name)
    (hsame : slotBlock dir' k' = slotBlock dir k)
    (he : k' % DIRENTS_PER_BLOCK = k % DIRENTS_PER_BLOCK) :
    slotEntry (setSlot img dir k name child) dir' k' = some (child, name) := by
  have hblock : (setSlot img dir k name child).blocks (slotBlock dir k) =
      direntSet (img.blocks (slotBlock dir k)) (k % DIRENTS_PER_BLOCK) name child :=
    update_self ..
  unfold slotEntry
  rw [hsame, he, hblock, direntInode_set hchild, direntName_set hlen hzero]
  rw [if_neg (not_or.mpr ⟨hb, Nat.succ_ne_zero child⟩)]
  rfl

/-- Writing a slot leaves the others. -/
theorem slotEntry_patched_of_ne {name : List UInt8}
    (hblocks : img'.blocks = Function.update img.blocks (slotBlock dir k)
      (patch (img.blocks (slotBlock dir k)) (k % DIRENTS_PER_BLOCK * DIRENT_SIZE)
        (le32 n ++ nameField name))) (h : ¬(slotBlock dir' k' = slotBlock dir k ∧
      k' % DIRENTS_PER_BLOCK = k % DIRENTS_PER_BLOCK)) :
    slotEntry img' dir' k' = slotEntry img dir' k' := by
  by_cases hsame : slotBlock dir' k' = slotBlock dir k
  · have he : k' % DIRENTS_PER_BLOCK ≠ k % DIRENTS_PER_BLOCK := fun he => h ⟨hsame, he⟩
    unfold slotEntry
    have hbytes := patch_dirent_of_ne (img.blocks (slotBlock dir k)) n name he
    rw [hsame, hblocks, update_self, direntInode_congr hbytes, direntName_congr hbytes]
  · refine slotEntry_congr rfl (fun _ => ?_)
    rw [hblocks, update_of_ne hsame]

theorem slotEntry_setSlot_of_ne (h : ¬(slotBlock dir' k' = slotBlock dir k ∧
    k' % DIRENTS_PER_BLOCK = k % DIRENTS_PER_BLOCK)) :
    slotEntry (setSlot img dir k name child) dir' k' = slotEntry img dir' k' :=
  slotEntry_patched_of_ne rfl h

theorem slotEntry_clearSlot (hsame : slotBlock dir' k' = slotBlock dir k)
    (he : k' % DIRENTS_PER_BLOCK = k % DIRENTS_PER_BLOCK) :
    slotEntry (clearSlot img dir k) dir' k' = none := by
  have hblock : (clearSlot img dir k).blocks (slotBlock dir k) =
      direntClear (img.blocks (slotBlock dir k)) (k % DIRENTS_PER_BLOCK) :=
    update_self ..
  unfold slotEntry
  rw [hsame, he, hblock, direntInode_clear, if_pos (Or.inr rfl)]

theorem slotEntry_clearSlot_of_ne (h : ¬(slotBlock dir' k' = slotBlock dir k ∧
    k' % DIRENTS_PER_BLOCK = k % DIRENTS_PER_BLOCK)) :
    slotEntry (clearSlot img dir k) dir' k' = slotEntry img dir' k' :=
  slotEntry_patched_of_ne rfl h

theorem slot_div_lt (hk : k < DIR_SLOTS) : k / DIRENTS_PER_BLOCK < DIRECT_BLOCKS := by
  have hvals : DIR_SLOTS = 128 ∧ DIRENTS_PER_BLOCK = 16 ∧ DIRECT_BLOCKS = 8 := ⟨rfl, rfl, rfl⟩
  rw [hvals.2.1, hvals.2.2]
  omega

end BigOS.Fs.Bigfs
