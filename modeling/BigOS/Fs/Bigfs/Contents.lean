/-
  BigOS.Fs.Bigfs.Contents — files as byte arrays.

  The purpose of a file: a list of bytes for each inode, that a write overlays, with
  zeros where it leaves a gap, that a truncate cuts or fills with zeros, and that
  `open` empties when it makes the file or is asked to cut it.  Along every history
  the bytes in the blocks of a regular file are those of its list, whatever the other
  operations allocate and free meanwhile.

  Main results:
    • `Effect.refines` — one operation keeps content and list together,
    • `contents_refine_bytes` — every history, and what `read` returns.
-/
import BigOS.Fs.Bigfs.Namespace

namespace BigOS.Fs.Bigfs

open BigOS.Lib Function Volume Padded

variable {s s' : Volume} {img img' : Image} {i : Nat} {op : Op} {status : Status}
  {ret : Option Nat} {files : Nat → List UInt8}

/-! ## §1. The abstract files. -/

/-- What an operation that ended so means for the files. -/
def fileStep (s : Volume) (files : Nat → List UInt8) (status : Status) (ret : Option Nat) :
    Op → Nat → List UInt8
  | .write i offset bytes _ _ _ =>
    if status = .success ∧ bytes ≠ [] then
      Function.update files i (Padded.overwrite 0 (files i) offset bytes)
    else files
  | .truncate i length _ _ _ =>
    if status = .success then Function.update files i (resize 0 (files i) length)
    else files
  | .open_ _ flags _ _ _ _ =>
    match ret with
    -- A file that was not there before, or one to be cut.
    | some i => if flags.trunc ∨ ¬InUse s.live i then Function.update files i [] else files
    | none => files
  | _ => files

/-- The files after a history. -/
def runFiles (s : Volume) (files : Nat → List UInt8) : List Op → Nat → List UInt8
  | [] => files
  | op :: ops => runFiles (step s op) (fileStep s files (exec s op).1 (answer s op) op) ops

/-- The bytes of the regular files are those of the lists. -/
def Refines (img : Image) (files : Nat → List UInt8) : Prop :=
  ∀ i, InUse img i → (img.inodes i).type = .regular → content img i = files i

/-! ## §2. One operation. -/

theorem content_nil (h : (img.inodes i).size = 0) : content img i = [] :=
  List.eq_nil_of_length_eq_zero ((length_content img i).trans h)

/-- A framed inode that is a regular file is one that was. -/
theorem Frame.body (h : Frame img img' i) (hreg : (img'.inodes i).type = .regular) :
    Body img img' i :=
  h.file (h.type.symm.trans hreg)

section

variable (h : Refines img files) (hs : Sane img)

include h hs

/-- A file whose blocks are untouched. -/
theorem Refines.kept (hb : Body img img' i) (hi : InUse img' i)
    (hreg : (img'.inodes i).type = .regular) : content img' i = files i := by
  have hused := hb.inUse.mp hi
  have htype : (img.inodes i).type = .regular := hb.type.symm.trans hreg
  rw [hb.content hused.2 ((hs.shape i hused.1).fileSize htype), h i hused htype]

theorem Refines.of_frame (hframe : ∀ j, InUse img' j → Frame img img' j) : Refines img' files :=
  fun j hj hreg => h.kept hs ((hframe j hj).body hreg) hj hreg

/-- One file has a new content, and the others are framed. -/
theorem Refines.of_update {bytes : List UInt8} (hcontent : content img' i = bytes)
    (hframe : ∀ j, InUse img' j → j ≠ i → Frame img img' j) :
    Refines img' (Function.update files i bytes) := by
  intro j hj hreg
  by_cases hji : j = i
  · subst hji
    rw [update_self, hcontent]
  · rw [update_of_ne hji]
    exact h.kept hs ((hframe j hj hji).body hreg) hj hreg

/-- All inodes but one are framed, and that one is no file or kept its blocks. -/
theorem Refines.of_others (hself : InUse img' i → (img'.inodes i).type = .regular → Body img img' i)
    (hframe : ∀ j, InUse img' j → j ≠ i → Frame img img' j) : Refines img' files := by
  intro j hj hreg
  by_cases hji : j = i
  · subst hji
    exact h.kept hs (hself hj hreg) hj hreg
  · exact h.kept hs ((hframe j hj hji).body hreg) hj hreg

end

/-- The inode whose entry is removed is freed, or it is open and keeps its blocks. -/
theorem Removes.refines {parent k target : Nat} (hremove : Removes s parent k target s')
    (hs : Sane s.live) (h : Refines s.live files) : Refines s'.live files := by
  obtain ⟨_, hothers, _, hgone, hbody⟩ := hremove.facts hs
  refine h.of_others hs (fun hi _ => ?_) (fun j hj => hothers j hj.1)
  by_cases hrefs : s.openRefs target = 0
  · exact absurd hi (hgone hrefs)
  · exact hbody hrefs

theorem closeInode_refines (hgood : Good s) (h : Refines s.live files) (i : Nat) :
    Refines (closeInode s i).live files := by
  rcases closeInode_spec hgood.sane i with ⟨_, heq⟩ | ⟨_, heq, _⟩ | ⟨hused, hlinks, heq⟩
  · rw [heq]
    exact h
  · rw [heq]
    exact h
  · obtain ⟨_, hkept, hopen, hgone⟩ := hgood.sane.reaped (closed s i).openRefs hused hlinks
    rw [heq]
    refine h.of_others hgood.sane (fun hi _ => ?_) (fun j _ hji => (hkept j hji).frame)
    by_cases hlast : (closed s i).openRefs i = 0
    · exact absurd hi (hgone hlast)
    · exact (hopen hlast).toBody

/-- One operation keeps the files and their lists together. -/
theorem Effect.refines (hgood : Good s) (he : Effect s op status ret s')
    (h : Refines s.live files) : Refines s'.live (fileStep s files status ret op) := by
  have hs := hgood.sane
  cases he with
  | failed hne hL =>
    have hsame : fileStep s files status none op = files := by
      cases op <;> first | rfl | exact if_neg (fun hc => hne (by first | exact hc.1 | exact hc))
    rw [hsame]
    exact h.of_frame hs (fun j hj => (hL.frame (hL.inUse hj)).frame)
  | quiet hop htouch =>
    have hsame : fileStep s files .success none op = files := by
      cases op <;> first | rfl | exact nomatch hop
    rw [hsame]
    exact h.of_frame hs (fun j _ => (htouch.kept j).frame)
  | @opened path flags mode uid gid now i hi htrunc =>
    show Refines s.live (ite _ _ _)
    split
    · rename_i hcond
      have hcut : flags.trunc := hcond.resolve_right (not_not.mpr hi.1)
      exact h.of_update hs (content_nil (htrunc hcut)) (fun j _ _ => (Kept.refl _ _).frame)
    · exact h
  | @emptied path flags mode uid gid now i s1 hi htrunc hcut =>
    obtain ⟨_, hkept, _, _, _, hcontent⟩ := hcut.facts hs
    show Refines s1.live (ite _ _ _)
    rw [if_pos (Or.inl htrunc)]
    have hnil : content s1.live i = [] := by
      rw [hcontent]
      exact List.eq_nil_of_length_eq_zero (length_resize ..)
    exact h.of_update hs hnil (fun j hj hji => (hkept j hj.1 hji).frame)
  | @created path flags mode uid gid now parent child leaf s1 _ hcreate =>
    obtain ⟨_, hothers, _, _, _, hsize⟩ := hcreate.facts
    show Refines s1.live (ite _ _ _)
    rw [if_pos (Or.inr (not_inUse_new hcreate.bit))]
    exact h.of_update hs (content_nil hsize) (fun j hj hjc => hothers j hj.1 hjc)
  | made _ hcreate =>
    obtain ⟨_, hothers, _, htype, _, _⟩ := hcreate.facts
    refine h.of_others hs (fun _ hreg => ?_) (fun j hj hjc => hothers j hj.1 hjc)
    rw [htype] at hreg
    exact absurd hreg (by decide)
  | closed => exact closeInode_refines hgood h _
  | wroteNothing => exact h
  | @written i offset uid gid now bytes _ hwrite =>
    obtain ⟨_, hkept, _, _, _, hcontent⟩ := hwrite.facts hs
    have hstep : fileStep s files .success none (.write i offset bytes uid gid now) =
        Function.update files i (Padded.overwrite 0 (files i) offset bytes) :=
      if_pos ⟨rfl, hwrite.nonempty⟩
    rw [hstep, ← h i hwrite.inUse hwrite.regular]
    exact h.of_update hs hcontent (fun j hj hji => (hkept j hj.1 hji).frame)
  | @sameSize i length uid gid now hsize =>
    have hstep : fileStep s files .success none (.truncate i length uid gid now) =
        Function.update files i (resize 0 (files i) length) := rfl
    rw [hstep]
    intro j hj hreg
    by_cases hji : j = i
    · subst hji
      rw [update_self, ← h j hj hreg, ← hsize, ← length_content, resize_length]
    · rw [update_of_ne hji, h j hj hreg]
  | @truncated i length uid gid now _ hcut =>
    obtain ⟨_, hkept, _, _, _, hcontent⟩ := hcut.facts hs
    have hstep : fileStep s files .success none (.truncate i length uid gid now) =
        Function.update files i (resize 0 (files i) length) := rfl
    rw [hstep, ← h i hcut.inUse hcut.regular]
    exact h.of_update hs hcontent (fun j hj hji => (hkept j hj.1 hji).frame)
  | unlinked _ hremove => exact hremove.refines hs h
  | removed _ hremove => exact hremove.refines hs h
  | unmoved => exact h
  | renamed hrename => exact h.of_frame hs (fun j hj => (hrename.facts hs).2 j hj.1)
  | moved hmove => exact h.of_frame hs (fun j hj => hmove.facts.2 j hj.1)

/-! ## §3. Histories. -/

theorem runOps_refines (hgood : Good s) (h : Refines s.live files) (ops : List Op) :
    Refines (runOps s ops).live (runFiles s files ops) := by
  induction ops generalizing s files with
  | nil => exact h
  | cons op ops ih =>
    have hstep := (exec_effect hgood op).refines hgood h
    exact ih (step_good hgood op) hstep

/-- `read` of a regular file. -/
theorem read_content (hgood : Good s) (hi : i < INODE_COUNT)
    (hreg : (s.live.inodes i).type = .regular) (offset len now : Nat) :
    (read s i offset len now).1 = .success ∧
      (read s i offset len now).2.1 = ((content s.live i).drop offset).take len := by
  set node := s.live.inodes i
  have hsize := (hgood.sane.shape i hi).fileSize hreg
  have hlt : ¬INODE_COUNT ≤ i := Nat.not_le.mpr hi
  have htype : ¬node.type ≠ .regular := not_not.mpr hreg
  by_cases hlen : len = 0
  · have hread : read s i offset len now = (.success, [], s) := if_pos hlen
    rw [hread, hlen, List.take_zero]
    exact ⟨rfl, rfl⟩
  by_cases hoff : node.size ≤ offset
  · have hread : read s i offset len now = (.success, [], s) :=
      (if_neg hlen).trans ((if_neg hlt).trans ((if_neg htype).trans (if_pos hoff)))
    have hbeyond : (content s.live i).drop offset = [] := by
      rw [List.drop_eq_nil_iff, length_content]
      exact hoff
    rw [hread, hbeyond, List.take_nil]
    exact ⟨rfl, rfl⟩
  · have hchunks : readChunks s.live node (min (node.size - offset) len)
        offset (min (node.size - offset) len) = ((content s.live i).drop offset).take len :=
      readChunks_content hsize (Nat.not_le.mp hoff)
    rw [← hchunks]
    unfold read
    rw [if_neg hlen, if_neg hlt]
    simp only
    rw [if_neg htype, if_neg hoff]
    split
    · rename_i hnil
      rw [hnil]
      exact ⟨rfl, rfl⟩
    · exact ⟨rfl, rfl⟩

/-- A call that fails leaves the volume as it was. -/
theorem failed_unchanged {r : Status × Volume} {p : Prop} {q : Volume → Prop}
    (h : (∃ status, status ≠ .success ∧ r = (status, s)) ∨ p ∧ r = (.success, s) ∨
      ∃ s', q s' ∧ r = (.success, s')) (hne : r.1 ≠ .success) : r.2 = s := by
  rcases h with ⟨_, _, heq⟩ | ⟨_, heq⟩ | ⟨_, _, heq⟩
  · rw [heq]
  · rw [heq]
  · rw [heq] at hne
    exact absurd rfl hne

/-- After every history a regular file is its list of bytes, `read` returns the part of
it that was asked for, and a write or truncate that fails changes nothing. -/
theorem contents_refine_bytes (now : Nat) (ops : List Op) (files : Nat → List UInt8) (i : Nat)
    (hi : InUse (runOps (format now) ops).live i)
    (hreg : ((runOps (format now) ops).live.inodes i).type = .regular) :
    ((runOps (format now) ops).live.inodes i).size = (runFiles (format now) files ops i).length ∧
    (∀ offset len t, (read (runOps (format now) ops) i offset len t).1 = .success ∧
      (read (runOps (format now) ops) i offset len t).2.1 =
        ((runFiles (format now) files ops i).drop offset).take len) ∧ (∀ offset bytes uid gid t,
      (write (runOps (format now) ops) i offset bytes uid gid t).1 ≠ .success →
      (write (runOps (format now) ops) i offset bytes uid gid t).2 = runOps (format now) ops) ∧
    ∀ length uid gid t, (truncate (runOps (format now) ops) i length uid gid t).1 ≠ .success →
      (truncate (runOps (format now) ops) i length uid gid t).2 = runOps (format now) ops := by
  have hgood := runOps_good now ops
  -- A fresh volume has no regular file.
  have hfresh : Refines (format now).live files := by
    intro i hi hreg
    obtain rfl := format_inUse hi
    cases hreg
  have hcontent := runOps_refines (format_good now) hfresh ops i hi hreg
  refine ⟨?_, fun offset len t => ?_, fun _ _ _ _ _ =>
    failed_unchanged (write_cases hgood ..), fun _ _ _ _ =>
    failed_unchanged (truncate_cases hgood ..)⟩
  · rw [← hcontent, length_content]
  · rw [← hcontent]
    exact read_content hgood hi.1 hreg offset len t

/-- The file `/rw/a` is written behind a hole, cut, and grown again. -/
def regrown : List Op :=
  [.open_ pathA ⟨false, true, true, false⟩ 420 0 0 1, .write 1 3 [7, 8] 0 0 2,
    .truncate 1 4 0 0 3, .truncate 1 6 0 0 4]

theorem contents_refine_bytes_regrown : InUse (runOps (format 0) regrown).live 1 ∧
      ((runOps (format 0) regrown).live.inodes 1).type = .regular ∧
      (read (runOps (format 0) regrown) 1 2 10 5).2.1 = [0, 7, 0, 0] := by
  have hi : InUse (runOps (format 0) regrown).live 1 := by decide +kernel
  have hreg : ((runOps (format 0) regrown).live.inodes 1).type = .regular := by
    decide +kernel
  refine ⟨hi, hreg, ?_⟩
  rw [((contents_refine_bytes 0 regrown (fun _ => []) 1 hi hreg).2.1 2 10 5).2]
  decide +kernel

end BigOS.Fs.Bigfs
