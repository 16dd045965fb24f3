/-
  BigOS.Fs.Bigfs.Validation — when the check at mount time accepts a volume.

  The check asks of every inode in use that it is linked; the rest of what it asks is
  part of the structure that every history keeps.  So it accepts exactly the volumes
  without unlinked inodes, and these arise where `unlink` or `rmdir` removes the entry
  of an inode that is open: it stays, without links, until its last close.

  Main results:
    • `Sane.validate_iff` — which images the check accepts,
    • `validation_after_every_operation` — which histories it accepts.
-/
import BigOS.Fs.Bigfs.Invariant

namespace BigOS.Fs.Bigfs

open BigOS.Lib Volume List

variable {done : Nat × Nat → Prop} {owned : Nat → Bool} {s' : Volume}

variable {img : Image} {s : Volume} {i target : Nat} {op : Op}

/-! ## §1. Folds that may fail. -/

/-- A fold fails at an element that no state accepts. -/
theorem foldlM_none {α β : Type*} {f : β → α → Option β} {l : List α} {x : α} (hx : x ∈ l)
    (hf : ∀ b, f b x = none) (b : β) : l.foldlM f b = none := by
  induction l generalizing b with
  | nil => cases hx
  | cons y rest ih =>
    rw [foldlM_cons]
    rcases mem_cons.mp hx with rfl | hx
    · rw [hf b]
      rfl
    · cases f b y with
      | none => rfl
      | some b' => exact ih hx b'

/-! ## §2. Owners, as the check collects them. -/

/-- The table marks what the pointers with the property own. -/
def Collected (img : Image) (done : Nat × Nat → Prop) (owned : Nat → Bool) : Prop :=
  ∀ k, owned k ↔ ∃ o, done o ∧ ownOf img o = some (DATA_START + k)

/-- Pointers that own nothing. -/
theorem Collected.skip {p : Nat × Nat → Prop} (hc : Collected img done owned)
    (hp : ∀ o b, p o → ownOf img o ≠ some b) : Collected img (fun o => done o ∨ p o) owned := by
  intro k
  rw [hc k]
  constructor
  · rintro ⟨o, ho, hown⟩
    exact ⟨o, .inl ho, hown⟩
  · rintro ⟨o, ho | ho, hown⟩
    · exact ⟨o, ho, hown⟩
    · exact absurd hown (hp o _ ho)

/-- One pointer: its block is marked, and no pointer before it owns it. -/
theorem claimBlock_collected (h : Sane img) (hi : InUse img i) {d : Nat} (hd : d < DIRECT_BLOCKS)
    (hdone : ¬done (i, d)) (hc : Collected img done owned) :
    ∃ owned', claimBlock img owned ((img.inodes i).direct d) = some owned' ∧
      Collected img (fun o => done o ∨ o = (i, d)) owned' := by
  unfold claimBlock
  by_cases hzero : (img.inodes i).direct d = 0
  · -- A hole owns nothing.
    rw [if_pos hzero]
    refine ⟨owned, rfl, hc.skip fun o b ho hown => ?_⟩
    subst ho
    obtain ⟨_, _, heq, hne⟩ := ownOf_some hown
    exact hne (heq.symm.trans hzero)
  · rw [if_neg hzero]
    have hown := ownOf_eq hi hd hzero
    obtain ⟨hlo, _, hbit⟩ := h.marked hi hd hzero
    have hback : DATA_START + ((img.inodes i).direct d - DATA_START) = (img.inodes i).direct d := by
      omega
    have hnew : owned ((img.inodes i).direct d - DATA_START) = false := by
      rw [← Bool.not_eq_true, hc]
      rintro ⟨o, ho, howned⟩
      rw [hback] at howned
      exact hdone (h.blocks.inj o (i, d) _ howned hown ▸ ho)
    rw [if_neg (by simp [hbit, hnew])]
    refine ⟨_, rfl, fun k => ?_⟩
    by_cases hk : k = (img.inodes i).direct d - DATA_START
    · subst hk
      rw [Function.update_self]
      exact ⟨fun _ => ⟨(i, d), .inr rfl, by rw [hback]; exact hown⟩, fun _ => rfl⟩
    rw [Function.update_of_ne hk, hc k]
    constructor
    · rintro ⟨o, ho, howned⟩
      exact ⟨o, .inl ho, howned⟩
    · rintro ⟨o, ho | rfl, howned⟩
      · exact ⟨o, ho, howned⟩
      · have := Option.some.inj (hown.symm.trans howned)
        omega

/-- The pointers of one inode. -/
theorem claimBlocks_collected (h : Sane img) (hi : InUse img i) (ds : List Nat) (hnodup : ds.Nodup)
    (hlt : ∀ d ∈ ds, d < DIRECT_BLOCKS) (hdone : ∀ d ∈ ds, ¬done (i, d))
    (hc : Collected img done owned) :
    ∃ owned', (ds.map (img.inodes i).direct).foldlM (claimBlock img) owned = some owned' ∧
      Collected img (fun o => done o ∨ (o.1 = i ∧ o.2 ∈ ds)) owned' := by
  induction ds generalizing done owned with
  | nil => exact ⟨owned, rfl, fun k => by simpa using hc k⟩
  | cons d rest ih =>
    obtain ⟨hdnot, hnodup⟩ := nodup_cons.mp hnodup
    obtain ⟨owned1, heq, hc1⟩ := claimBlock_collected h hi (hlt d (mem_cons_self ..))
      (hdone d (mem_cons_self ..)) hc
    obtain ⟨owned2, heq2, hc2⟩ := ih hnodup (fun e he => hlt e (mem_cons_of_mem _ he))
      (fun e he hor => hor.elim (hdone e (mem_cons_of_mem _ he))
        (fun heq => hdnot ((Prod.mk.inj heq).2 ▸ he))) hc1
    refine ⟨owned2, ?_, fun k => ?_⟩
    · rw [map_cons, foldlM_cons, heq]
      exact heq2
    · rw [hc2 k]
      refine exists_congr fun o => and_congr_left fun _ => ?_
      show (done o ∨ o = (i, d)) ∨ o.1 = i ∧ o.2 ∈ rest ↔ done o ∨ o.1 = i ∧ o.2 ∈ d :: rest
      rw [mem_cons, or_assoc, Prod.ext_iff]
      tauto

/-- The first loop, over inodes that have their shape. -/
theorem validateInodes_collected (h : Sane img) (is : List Nat) (hnodup : is.Nodup)
    (hlt : ∀ i ∈ is, i < INODE_COUNT)
    (hshape : ∀ i ∈ is, validateInodeShape i (img.inodes i) (img.inodeBitmap i))
    (hdone : ∀ i ∈ is, ∀ d, ¬done (i, d)) (hc : Collected img done owned) :
    ∃ owned', is.foldlM (validateInode img) owned = some owned' ∧
      Collected img (fun o => done o ∨ o.1 ∈ is) owned' := by
  induction is generalizing done owned with
  | nil => exact ⟨owned, rfl, fun k => by simpa using hc k⟩
  | cons i rest ih =>
    obtain ⟨hinot, hnodup⟩ := nodup_cons.mp hnodup
    have hi := hlt i (mem_cons_self ..)
    have hone : ∃ owned1, validateInode img owned i = some owned1 ∧
        Collected img (fun o => done o ∨ o.1 = i) owned1 := by
      unfold validateInode
      rw [if_neg (by simp [hshape i (mem_cons_self ..)])]
      by_cases hfree : (img.inodes i).type = .free
      · -- A free inode owns nothing.
        rw [if_pos hfree]
        have hnot : ¬InUse img i := fun hu =>
          Bool.false_ne_true (((h.shape i hi).free.mpr hfree).symm.trans hu.2)
        exact ⟨owned, rfl, hc.skip fun o b ho hown => hnot (ho ▸ (ownOf_some hown).1)⟩
      · rw [if_neg hfree]
        have hused : InUse img i := by
          refine ⟨hi, ?_⟩
          rw [← Bool.not_eq_false, (h.shape i hi).free]
          exact hfree
        obtain ⟨owned1, heq, hc1⟩ := claimBlocks_collected h hused
          (List.range' 0 (DIRECT_BLOCKS - 0)) (nodup_range' ..)
          (fun d hd => by rw [mem_range'_1] at hd; omega)
          (fun d _ => hdone i (mem_cons_self ..) d) hc
        refine ⟨owned1, heq, fun k => ?_⟩
        rw [hc1 k]
        refine exists_congr fun o => and_congr_left fun hown => ?_
        have hd := (ownOf_some hown).2.1
        show done o ∨ o.1 = i ∧ o.2 ∈ List.range' 0 (DIRECT_BLOCKS - 0) ↔ done o ∨ o.1 = i
        rw [mem_range'_1]
        constructor
        · exact fun ho => ho.imp_right And.left
        · exact fun ho => ho.imp_right (fun heq => ⟨heq, by omega⟩)
    obtain ⟨owned1, heq, hc1⟩ := hone
    obtain ⟨owned2, heq2, hc2⟩ := ih hnodup (fun j hj => hlt j (mem_cons_of_mem _ hj))
      (fun j hj => hshape j (mem_cons_of_mem _ hj))
      (fun j hj d hor => hor.elim (hdone j (mem_cons_of_mem _ hj) d)
        (fun heq => hinot (heq ▸ hj))) hc1
    refine ⟨owned2, ?_, fun k => ?_⟩
    · rw [foldlM_cons, heq]
      exact heq2
    · rw [hc2 k]
      refine exists_congr fun o => and_congr_left fun _ => ?_
      show (done o ∨ o.1 = i) ∨ o.1 ∈ rest ↔ done o ∨ o.1 ∈ i :: rest
      rw [mem_cons, or_assoc]

/-! ## §3. The check. -/

/-- An inode of a sane image has its shape if it is free or linked. -/
theorem Sane.shape_iff (h : Sane img) (hi : i < INODE_COUNT) :
    validateInodeShape i (img.inodes i) (img.inodeBitmap i) ↔
      (InUse img i → (img.inodes i).linkCount ≠ 0) := by
  have hs := h.shape i hi
  unfold validateInodeShape
  by_cases hbit : img.inodeBitmap i
  · have hused : InUse img i := ⟨hi, hbit⟩
    rw [if_neg (by simp [hbit])]
    -- In use, so a file or a directory, and the root is a directory.
    have htype : (img.inodes i).type = .regular ∨ (img.inodes i).type = .directory := by
      cases ht : (img.inodes i).type with
      | free => cases (hs.free.mpr ht).symm.trans hbit
      | regular => exact .inl rfl
      | directory => exact .inr rfl
    have hroot : i = ROOT_INODE → (img.inodes i).type = .directory := by
      rintro rfl
      exact h.tree.root_dir
    have hsize : (img.inodes i).size ≤ MAX_FILE_SIZE := by
      rcases htype with hreg | hdir
      · exact hs.fileSize hreg
      · rw [hs.dirSize hbit hdir]
        exact Nat.mul_le_mul_left BLOCK_SIZE (Slots.occupied_le DIRECT_BLOCKS _)
    have hmod : (img.inodes i).type = .directory → (img.inodes i).size % BLOCK_SIZE = 0 := by
      intro hdir
      rw [hs.dirSize hbit hdir]
      exact Nat.mul_mod_right ..
    have hdirect : ((List.range DIRECT_BLOCKS).all (fun d => (img.inodes i).direct d == 0 ||
        (DATA_START ≤ (img.inodes i).direct d && (img.inodes i).direct d < TOTAL_BLOCKS))) =
          true := by
      rw [all_eq_true]
      intro d hd
      by_cases hzero : (img.inodes i).direct d = 0
      · simp [hzero]
      · obtain ⟨hlo, hhi, _⟩ := h.marked hused (mem_range.mp hd) hzero
        simp [hlo, hhi]
    rw [if_neg (by rcases htype with ht | ht <;> simp [ht])]
    rw [if_neg (by
      rw [Bool.and_eq_true, beq_iff_eq, bne_iff_ne]
      exact fun hx => hx.2 (hroot hx.1))]
    by_cases hlinks : (img.inodes i).linkCount = 0
    · rw [if_pos (by simp [hlinks])]
      exact ⟨fun hf => absurd hf (by simp), fun hl => absurd hlinks (hl hused)⟩
    · rw [if_neg (by simp [hlinks, hsize]), if_neg (by
        rw [Bool.and_eq_true, beq_iff_eq, bne_iff_ne]
        exact fun hx => hx.2 (hmod hx.1))]
      exact ⟨fun _ _ => hlinks, fun _ => hdirect⟩
  · have hfree : (img.inodes i).type = .free := hs.free.mp (by simpa using hbit)
    rw [if_pos (by simpa using hbit), hfree]
    exact ⟨fun _ hu => absurd hu.2 hbit, fun _ => rfl⟩

/-- The check accepts a sane image if every inode in use is linked, and only then. -/
theorem Sane.validate_iff (h : Sane img) : validateMetadataInvariants img = .success ↔
      ∀ i, InUse img i → (img.inodes i).linkCount ≠ 0 := by
  have hvals : DATA_START = 43 ∧ TOTAL_BLOCKS = 256 ∧ DATA_BLOCK_COUNT = 213 := ⟨rfl, rfl, rfl⟩
  unfold validateMetadataInvariants
  constructor
  · intro haccept i hi hlinks
    -- The first loop stops at this inode.
    have hreject : ∀ owned, validateInode img owned i = none := by
      intro owned
      have hshape : validateInodeShape i (img.inodes i) (img.inodeBitmap i) = false := by
        rw [← Bool.not_eq_true, h.shape_iff hi.1]
        exact fun hl => hl hi hlinks
      rw [validateInode, hshape]
      rfl
    rw [foldlM_none (mem_range.mpr hi.1) hreject] at haccept
    cases haccept
  · intro hlinked
    have hstart : Collected img (fun _ => False) (fun _ => false) := fun k => by simp
    obtain ⟨owned, heq, hc⟩ := validateInodes_collected h (List.range INODE_COUNT) nodup_range
      (fun i hi => mem_range.mp hi)
      (fun i hi => (h.shape_iff (mem_range.mp hi)).mpr (hlinked i)) (fun _ _ _ => id) hstart
    rw [heq]
    simp only
    rw [if_neg, if_pos]
    · -- Every entry names an inode in use.
      rw [all_eq_true]
      intro i hi
      have hi := mem_range.mp hi
      by_cases hdir : (img.inodes i).type = .directory
      · have hisdir : IsDir img i := by
          refine ⟨⟨hi, ?_⟩, hdir⟩
          rw [← Bool.not_eq_false, (h.shape i hi).free, hdir]
          decide
        simp only [hdir, bne_self_eq_false, Bool.false_or]
        rw [all_eq_true]
        intro k hk
        have hk := mem_range.mp hk
        by_cases hnone : slotBlock (img.inodes i) k = 0 ∨
            direntInode (img.blocks (slotBlock (img.inodes i) k)) (k % DIRENTS_PER_BLOCK) = 0
        · rcases hnone with hzero | hzero
          · simp [hzero]
          · simp [validateEntry, hzero]
        · have he : slotEntry img (img.inodes i) k = some
              (direntInode (img.blocks (slotBlock (img.inodes i) k)) (k % DIRENTS_PER_BLOCK) - 1,
                direntName (img.blocks (slotBlock (img.inodes i) k)) (k % DIRENTS_PER_BLOCK)) :=
            if_neg hnone
          obtain ⟨hlive, _⟩ := h.tree.target i k _ _ (entryOf_slot hisdir hk he)
          have hfree : (img.inodes (direntInode (img.blocks (slotBlock (img.inodes i) k))
              (k % DIRENTS_PER_BLOCK) - 1)).type ≠ .free := by
            intro hf
            cases ((h.shape _ hlive.1.1).free.mpr hf).symm.trans hlive.1.2
          rw [Bool.or_eq_true]
          right
          simp [validateEntry, hlive.1.1, hlive.1.2, hfree]
      · simp [hdir]
    · -- Every marked block has an owner.
      rw [any_eq_true]
      rintro ⟨k, hk, hbad⟩
      have hk := mem_range.mp hk
      rw [Bool.and_eq_true, Bool.not_eq_true'] at hbad
      have hmarked : Marked img (DATA_START + k) := by
        refine ⟨by omega, by omega, ?_⟩
        rw [Nat.add_sub_cancel_left]
        exact hbad.1
      obtain ⟨o, hown⟩ := h.blocks.owned _ hmarked
      have hset : owned k := (hc k).mpr ⟨o, .inr (mem_range.mpr (ownOf_some hown).1.1), hown⟩
      cases hbad.2.symm.trans hset

/-! ## §4. Histories. -/

/-- Every inode in use is linked. -/
def AllLinked (s : Volume) : Prop := ∀ i, InUse s.live i → (s.live.inodes i).linkCount ≠ 0

theorem AllLinked.of_frame (h : AllLinked s) (hframe : ∀ i, InUse s'.live i → InUse s.live i ∧
      ((s'.live.inodes i).linkCount = 0 ↔ (s.live.inodes i).linkCount = 0)) : AllLinked s' := by
  intro i hi hl
  obtain ⟨hused, hlinks⟩ := hframe i hi
  exact h i hused (hlinks.mp hl)

/-- One file changes, and its links do not. -/
theorem AllLinked.of_file (h : AllLinked s)
    (hkept : ∀ j < INODE_COUNT, j ≠ i → Kept s.live s'.live j)
    (hbits : s'.live.inodeBitmap = s.live.inodeBitmap)
    (hlinks : (s'.live.inodes i).linkCount = (s.live.inodes i).linkCount) : AllLinked s' := by
  refine h.of_frame (fun j hj => ⟨⟨hj.1, by rw [← hbits]; exact hj.2⟩, ?_⟩)
  by_cases hji : j = i
  · rw [hji, hlinks]
  · exact (hkept j hj.1 hji).links

/-- A linked inode is new. -/
theorem AllLinked.of_new {child : Nat} (h : AllLinked s)
    (hframe : ∀ j < INODE_COUNT, j ≠ child → Frame s.live s'.live j)
    (hlinks : (s'.live.inodes child).linkCount ≠ 0) : AllLinked s' := by
  intro j hj
  by_cases hjc : j = child
  · rw [hjc]
    exact hlinks
  · have hf := hframe j hj.1 hjc
    exact fun hl => h j (hf.inUse.mp hj) (hf.links.mp hl)

/-- Closing frees nothing that is linked. -/
theorem AllLinked.close (h : AllLinked s) (hs : Good s) (i : Nat) : AllLinked (closeInode s i) := by
  rcases closeInode_spec hs.sane i with ⟨_, heq⟩ | ⟨_, heq, _⟩ | ⟨hused, hlinks, _⟩
  · rw [heq]
    exact h
  · rw [heq]
    exact h
  · exact absurd hlinks (h i hused)

/-- Removing an entry leaves an unlinked inode exactly if it is open. -/
theorem Removes.allLinked_iff {parent k : Nat} (h : Removes s parent k target s')
    (hs : Sane s.live) (hl : AllLinked s) : AllLinked s' ↔ s.openRefs target = 0 := by
  obtain ⟨_, hframe, hused, hfreed, hbody⟩ := h.facts hs
  constructor
  · intro hall
    by_contra hopen
    refine hall target ((hbody hopen).inUse.mpr hused) ?_
    obtain ⟨leaf, he⟩ := h.entry
    have hne := parent_ne_child h.dir h.lt he h.empty
    obtain ⟨now, plan, rfl, _⟩ := h.result
    show ((reap s.openRefs (removedImage s.live parent k target now) target).inodes
      target).linkCount = 0
    rw [reap, if_neg hopen, removedImage_target hne]
    rfl
  · intro hzero i hi
    have hit : i ≠ target := by
      rintro rfl
      exact hfreed hzero hi
    have hf := hframe i hi.1 hit
    exact fun hl0 => hl i (hf.inUse.mp hi) (hf.links.mp hl0)

/-- An operation that removes no entry of an open inode leaves every inode linked. -/
theorem Effect.allLinked {status : Status} {ret : Option Nat} (h : Good s)
    (hl : AllLinked s) (hcond : ∀ target, removable s op = some target → s.openRefs target = 0)
    (he : Effect s op status ret s') : AllLinked s' := by
  cases he with
  | failed _ hL =>
    refine hl.of_frame (fun i hi => ?_)
    have hused : InUse s.live i := hL.inUse hi
    exact ⟨hused, (hL.frame hused).links⟩
  | quiet _ htouch =>
    exact hl.of_frame (fun i hi => ⟨(htouch.kept i).inUse.mp hi, (htouch.kept i).links⟩)
  | opened => exact hl
  | emptied _ _ hcut =>
    obtain ⟨_, hkept, hbits, _, hlinks, _⟩ := hcut.facts h.sane
    exact hl.of_file hkept hbits hlinks
  | created _ hcreate | made _ hcreate =>
    obtain ⟨_, hframe, _, _, hlinks, _⟩ := hcreate.facts
    exact hl.of_new hframe hlinks
  | closed => exact hl.close h _
  | wroteNothing => exact hl
  | written hwrite =>
    obtain ⟨_, hkept, hbits, _, hlinks, _⟩ := hwrite.facts h.sane
    exact hl.of_file hkept hbits hlinks
  | sameSize => exact hl
  | truncated hcut =>
    obtain ⟨_, hkept, hbits, _, hlinks, _⟩ := hcut.facts h.sane
    exact hl.of_file hkept hbits hlinks
  | unlinked hgone hremove | removed hgone hremove =>
    exact (hremove.allLinked_iff h.sane hl).mpr (hcond _ hgone)
  | unmoved => exact hl
  | renamed hrename =>
    obtain ⟨_, hframe⟩ := hrename.facts h.sane
    exact hl.of_frame (fun i hi => ⟨(hframe i hi.1).inUse.mp hi, (hframe i hi.1).links⟩)
  | moved hmove =>
    obtain ⟨_, hframe⟩ := hmove.facts
    exact hl.of_frame (fun i hi => ⟨(hframe i hi.1).inUse.mp hi, (hframe i hi.1).links⟩)

/-- What an operation removes, it removes. -/
theorem exec_removes (h : Good s) (hgone : removable s op = some target) :
    ∃ parent k, Removes s parent k target (step s op) := by
  cases op with
  | unlink path uid gid now =>
    exact (unlink_cases h path uid gid now).removes hgone
  | rmdir path uid gid now =>
    exact (rmdir_cases h path uid gid now).removes hgone
  | _ => exact absurd hgone (by simp [removable])

/-- One operation, from a state in which every inode is linked. -/
theorem step_allLinked_iff (h : Good s) (hl : AllLinked s) (op : Op) :
    AllLinked (step s op) ↔ ∀ target, removable s op = some target → s.openRefs target = 0 := by
  constructor
  · intro hall target hgone
    obtain ⟨parent, k, hremove⟩ := exec_removes h hgone
    exact (hremove.allLinked_iff h.sane hl).mp hall
  · exact fun hcond => (exec_effect h op).allLinked h hl hcond

/-- No operation of the history removes the entry of an inode that is open. -/
def RemovesClosedOnly (s : Volume) (ops : List Op) : Prop :=
  ∀ before op after, ops = before ++ op :: after → ∀ target,
    removable (runOps s before) op = some target → (runOps s before).openRefs target = 0

theorem runOps_cons (s : Volume) (op : Op) (ops : List Op) :
    runOps s (op :: ops) = runOps (step s op) ops := rfl

theorem runOps_allLinked_iff (h : Good s) (hl : AllLinked s) (ops : List Op) :
    (∀ before after, ops = before ++ after → AllLinked (runOps s before)) ↔
      RemovesClosedOnly s ops := by
  induction ops generalizing s with
  | nil =>
    refine ⟨fun _ before op after heq => ?_, fun _ before after heq => ?_⟩
    · exact absurd heq (by simp)
    · obtain ⟨rfl, _⟩ := append_eq_nil_iff.mp heq.symm
      exact hl
  | cons op ops ih =>
    have hstep := step_allLinked_iff h hl op
    have hgood := step_good h op
    constructor
    · intro hall
      have hfirst : AllLinked (step s op) := hall [op] ops rfl
      have hrest := (ih hgood hfirst).mp (fun before after heq =>
        hall (op :: before) after (by rw [heq]; rfl))
      intro before op' after heq target hgone
      cases before with
      | nil =>
        obtain ⟨rfl, _⟩ := List.cons.inj heq
        exact hstep.mp hfirst target hgone
      | cons op'' before =>
        obtain ⟨rfl, htail⟩ := List.cons.inj heq
        exact hrest before op' after htail target hgone
    · intro hcond before after heq
      cases before with
      | nil => exact hl
      | cons op'' before =>
        obtain ⟨rfl, htail⟩ := List.cons.inj heq
        have hfirst : AllLinked (step s op) := hstep.mpr (hcond [] op ops rfl)
        refine (ih hgood hfirst).mpr ?_ before after htail
        exact fun before op' after heq => hcond (op :: before) op' after (by rw [heq]; rfl)

theorem format_allLinked (now : Nat) : AllLinked (format now) := by
  intro i hi
  obtain rfl := format_inUse hi
  exact Nat.succ_ne_zero 1

/-- The check accepts the volume after every operation of a history exactly if none of them
removes the entry of an inode that is open. -/
theorem validation_after_every_operation (now : Nat) (ops : List Op) :
    (∀ before after, ops = before ++ after →
      validateMetadataInvariants (runOps (format now) before).live = .success) ↔
      RemovesClosedOnly (format now) ops := by
  rw [← runOps_allLinked_iff (format_good now) (format_allLinked now)]
  refine forall_congr' fun before => forall_congr' fun after => forall_congr' fun _ => ?_
  exact (runOps_good now before).sane.validate_iff

/-- The path `/rw/a`. -/
def pathA : CString := ⟨[47, 114, 119, 47, 97], by decide⟩

/-- A file is created and stays open while its name is removed: the check rejects the
volume, and accepts it again once the file is closed. -/
theorem unlinked_open_file_fails_validation : validateMetadataInvariants (runOps (format 0)
      [.open_ pathA ⟨false, true, true, false⟩ 420 0 0 1, .unlink pathA 0 0 2]).live = .invalid ∧
    validateMetadataInvariants (runOps (format 0)
      [.open_ pathA ⟨false, true, true, false⟩ 420 0 0 1, .unlink pathA 0 0 2,
        .close 1]).live = .success := by
  decide +kernel

end BigOS.Fs.Bigfs
