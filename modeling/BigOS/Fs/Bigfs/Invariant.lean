/-
  BigOS.Fs.Bigfs.Invariant — what every history keeps.

  Each way an operation can end keeps the structure of the image, and frames all inodes
  but the one it is about.  So a mount is good after every history that starts from a
  freshly formatted device.

  Main results:
    • `Creates.facts`, `Truncates.facts`, `Writes.facts`, `Removes.facts`, `Renames.facts`,
      `Moves.facts` — the image after a change,
    • `Effect.good` — one operation,
    • `runOps_good` — a history.
-/
import BigOS.Fs.Bigfs.Effects

namespace BigOS.Fs.Bigfs

open BigOS.Lib Function Image

variable {parent k target : Nat}

variable {s s' : Volume} {i j offset length child : Nat} {bytes leaf : List UInt8}
  {type : InodeType}

/-! ## §1. The image after a change. -/

theorem Creates.facts (h : Creates s parent leaf type child s') :
    Sane s'.live ∧ (∀ j < INODE_COUNT, j ≠ child → Frame s.live s'.live j) ∧
      InUse s'.live child ∧ (s'.live.inodes child).type = type ∧
      (s'.live.inodes child).linkCount ≠ 0 ∧ (s'.live.inodes child).size = 0 := by
  obtain ⟨k, G, plan, node, now, hroom, hnode, htype, rfl, _⟩ := h.result
  obtain ⟨hsane, hframe, hused⟩ := hroom.created now h.place h.lookup h.lt h.bit hnode
  have hself : (createdImage G parent k leaf child node now).inodes child = node :=
    (update_of_ne (parent_ne_new h.place.dir h.bit).symm ..).trans enterChild_self
  refine ⟨hsane, hframe, hused, ?_, ?_, ?_⟩
  · show ((createdImage G parent k leaf child node now).inodes child).type = type
    rw [hself, htype]
  · show ((createdImage G parent k leaf child node now).inodes child).linkCount ≠ 0
    rw [hself]
    exact hnode.links
  · show ((createdImage G parent k leaf child node now).inodes child).size = 0
    rw [hself]
    exact hnode.size

/-- What a call that commits one inode of a file leaves of it. -/
theorem committed_facts {G : Image} {committed : DiskInode} {bitmap : Nat → Bool}
    {blocks : Nat → Block} (himage : G = { s.live with
      dataBitmap := bitmap, blocks := blocks, inodes := Function.update s.live.inodes i committed })
    (htype : committed.type = .regular)
    (hlinks : committed.linkCount = (s.live.inodes i).linkCount) :
    G.inodeBitmap = s.live.inodeBitmap ∧ (G.inodes i).type = .regular ∧
      (G.inodes i).linkCount = (s.live.inodes i).linkCount := by
  have hself : G.inodes i = committed := by
    rw [himage]
    exact update_self ..
  rw [hself]
  exact ⟨by rw [himage], htype, hlinks⟩

theorem Truncates.facts (h : Truncates s i length s') (hs : Sane s.live) :
    Sane s'.live ∧ (∀ j < INODE_COUNT, j ≠ i → Kept s.live s'.live j) ∧
      s'.live.inodeBitmap = s.live.inodeBitmap ∧ (s'.live.inodes i).type = .regular ∧
      (s'.live.inodes i).linkCount = (s.live.inodes i).linkCount ∧
      content s'.live i = Padded.resize 0 (content s.live i) length := by
  obtain ⟨committed, plan, now, hcommitted, rfl, _⟩ := h.result
  have htype : committed.type = .regular := by rw [hcommitted]; exact h.regular
  obtain ⟨hsane, hkept, hcontent⟩ := hs.truncated committed h.inUse h.regular h.size
    htype (by rw [hcommitted]) (by rw [hcommitted]) (fun d => by rw [hcommitted])
  obtain ⟨bitmap, blocks, himage, _⟩ := truncatedImage_eq s.live i length committed
  obtain ⟨hbitmap, hregular, hlinks⟩ := committed_facts himage htype (by rw [hcommitted])
  exact ⟨hsane, hkept, hbitmap, hregular, hlinks, hcontent⟩

theorem Writes.facts (h : Writes s i offset bytes s') (hs : Sane s.live) :
    Sane s'.live ∧ (∀ j < INODE_COUNT, j ≠ i → Kept s.live s'.live j) ∧
      s'.live.inodeBitmap = s.live.inodeBitmap ∧ (s'.live.inodes i).type = .regular ∧
      (s'.live.inodes i).linkCount = (s.live.inodes i).linkCount ∧
      content s'.live i = Padded.overwrite 0 (content s.live i) offset bytes := by
  obtain ⟨img, direct, committed, plan, now, allocated, hres, _, hcommitted, rfl, _⟩ := h.result
  have htype : committed.type = .regular := by rw [hcommitted]; exact h.regular
  obtain ⟨hsane, hkept, hcontent⟩ := hs.written committed h.inUse h.regular h.nonempty h.size hres
    htype (by rw [hcommitted]) (by rw [hcommitted]) (by rw [hcommitted])
  obtain ⟨blocks, himage, _⟩ := writtenImage_eq committed h.inUse h.nonempty h.size hres
  obtain ⟨hbitmap, hregular, hlinks⟩ := committed_facts himage htype (by rw [hcommitted])
  exact ⟨hsane, hkept, hbitmap, hregular, hlinks, hcontent⟩

theorem Removes.facts (h : Removes s parent k target s') (hs : Sane s.live) :
    Sane s'.live ∧ (∀ j < INODE_COUNT, j ≠ target → Frame s.live s'.live j) ∧
      InUse s.live target ∧ (s.openRefs target = 0 → ¬InUse s'.live target) ∧
      (s.openRefs target ≠ 0 → Body s.live s'.live target) := by
  obtain ⟨now, plan, rfl, _⟩ := h.result
  obtain ⟨leaf, he⟩ := h.entry
  obtain ⟨hsane, hframe, hbody⟩ := hs.removed now h.dir h.lt he h.empty
  have hlive := (hs.tree.target parent k target leaf (entryOf_slot h.dir h.lt he)).1
  have hself : (removedImage s.live parent k target now).inodes target =
      unlinkedInode (s.live.inodes target) now :=
    removedImage_target (parent_ne_child h.dir h.lt he h.empty)
  obtain ⟨hreap, hothers, hopen, hfreed⟩ := hsane.reaped s.openRefs (hbody.inUse.mpr hlive.1)
    (by rw [hself]; rfl)
  refine ⟨hreap, fun j hj hjt => ?_, hlive.1, hfreed, fun hrefs => ?_⟩
  · exact (hframe j hj hjt).trans (hothers j hjt).frame
  · exact hbody.trans (hopen hrefs).toBody

theorem Renames.facts (h : Renames s parent k target s') (hs : Sane s.live) :
    Sane s'.live ∧ ∀ j < INODE_COUNT, Frame s.live s'.live j := by
  obtain ⟨leaf, now, plan, hplace, hl, rfl, _⟩ := h.result
  obtain ⟨oldLeaf, he⟩ := h.entry
  exact hs.renamed now hplace h.lt he h.regular hl

theorem Moves.facts {oldParent src newParent : Nat}
    (h : Moves s oldParent src newParent target s') :
    Sane s'.live ∧ ∀ j < INODE_COUNT, Frame s.live s'.live j := by
  obtain ⟨leaf, dst, G, now, plan, hplace, hl, hroom, rfl, _⟩ := h.result
  obtain ⟨oldLeaf, he⟩ := h.entry
  exact hroom.moved now h.dir hplace h.parents h.lt he h.regular hl

/-! ## §2. One operation. -/

/-- All inodes are framed, and the references are what they were. -/
theorem Good.of_frame (h : Good s) (hsane : Sane s'.live) (hplan : PlanOk s'.plan)
    (hrefs : s'.openRefs = s.openRefs) (hframe : ∀ j, InUse s.live j → Frame s.live s'.live j)
    (hbits : ∀ j, InUse s'.live j → InUse s.live j) : Good s' where
  sane := hsane
  held j hj hlinks := by
    have hf := hframe j (hbits j hj)
    rw [hrefs]
    exact h.held j (hbits j hj) (hf.links.mp hlinks)
  refs j hj := by
    rw [hrefs] at hj
    exact (hframe j (h.refs j hj)).inUse.mpr (h.refs j hj)
  plan := hplan

/-- All inodes below `INODE_COUNT` are framed. -/
theorem Good.of_frame_all (h : Good s) (hsane : Sane s'.live) (hplan : PlanOk s'.plan)
    (hrefs : s'.openRefs = s.openRefs) (hframe : ∀ j < INODE_COUNT, Frame s.live s'.live j) :
    Good s' :=
  h.of_frame hsane hplan hrefs (fun j hj => hframe j hj.1) (fun j hj => (hframe j hj.1).inUse.mp hj)

theorem Good.of_unchanged (h : Good s) {L : Image} (hL : Unchanged s.live L) :
    Good { s with live := L } := by
  exact h.of_frame (hL.sane h.sane) h.plan rfl (fun j hj => (hL.frame hj).frame)
    (fun j hj => hL.inUse hj)

/-- A linked inode is opened. -/
theorem Good.addRef (h : Good s) (hi : (tree s.live).live i) : Good (addRef s i) where
  sane := h.sane
  held j hj hlinks := by
    have hji : j ≠ i := by
      rintro rfl
      exact hi.2 hlinks
    show Function.update s.openRefs i _ j ≠ 0
    rw [update_of_ne hji]
    exact h.held j hj hlinks
  refs j hj := by
    by_cases hji : j = i
    · exact hji ▸ hi.1
    · refine h.refs j ?_
      have hj : Function.update s.openRefs i ((s.openRefs i + 1) % 2 ^ 32) j ≠ 0 := hj
      rwa [update_of_ne hji] at hj
  plan := h.plan

/-- One file changes. -/
theorem Good.of_file (h : Good s) (hsane : Sane s'.live) (hplan : PlanOk s'.plan)
    (hrefs : s'.openRefs = s.openRefs) (hkept : ∀ j < INODE_COUNT, j ≠ i → Kept s.live s'.live j)
    (hbits : s'.live.inodeBitmap = s.live.inodeBitmap)
    (hlinks : (s'.live.inodes i).linkCount = (s.live.inodes i).linkCount) : Good s' := by
  have hused : ∀ j, InUse s'.live j ↔ InUse s.live j := fun j => by
    unfold InUse
    rw [hbits]
  refine ⟨hsane, fun j hj hl => ?_, fun j hj => ?_, hplan⟩
  · rw [hrefs]
    refine h.held j ((hused j).mp hj) ?_
    by_cases hji : j = i
    · subst hji
      rw [← hlinks]
      exact hl
    · exact (hkept j hj.1 hji).links.mp hl
  · rw [hrefs] at hj
    exact (hused j).mpr (h.refs j hj)

theorem Truncates.good (h : Truncates s i length s') (hs : Good s) : Good s' := by
  obtain ⟨hsane, hkept, hbits, _, hlinks, _⟩ := h.facts hs.sane
  obtain ⟨committed, plan, now, _, rfl, _⟩ := h.result
  exact hs.of_file hsane PlanOk.nil rfl hkept hbits hlinks

theorem Writes.good (h : Writes s i offset bytes s') (hs : Good s) : Good s' := by
  obtain ⟨hsane, hkept, hbits, _, hlinks, _⟩ := h.facts hs.sane
  obtain ⟨img, direct, committed, plan, now, allocated, _, _, _, rfl, _⟩ := h.result
  exact hs.of_file hsane PlanOk.nil rfl hkept hbits hlinks

theorem Creates.good (h : Creates s parent leaf type child s') (hs : Good s) :
    Good s' ∧ (tree s'.live).live child := by
  obtain ⟨hsane, hframe, hused, _, hlinks, _⟩ := h.facts
  obtain ⟨k, G, plan, node, now, _, _, _, rfl, _⟩ := h.result
  refine ⟨⟨hsane, fun j hj hl => ?_, fun j hj => ?_, PlanOk.nil⟩, hused, hlinks⟩
  · have hjc : j ≠ child := by
      rintro rfl
      exact hlinks hl
    have hf := hframe j hj.1 hjc
    exact hs.held j (hf.inUse.mp hj) (hf.links.mp hl)
  · -- The new inode had no references.
    have hold : InUse s.live j := hs.refs j hj
    have hjc : j ≠ child := fun heq => not_inUse_new h.bit (heq ▸ hold)
    exact (hframe j hold.1 hjc).inUse.mpr hold

theorem Removes.good (h : Removes s parent k target s') (hs : Good s) : Good s' := by
  obtain ⟨hsane, hframe, hused, hfreed, hbody⟩ := h.facts hs.sane
  obtain ⟨now, plan, rfl, _⟩ := h.result
  refine ⟨hsane, fun j hj hl => ?_, fun j hj => ?_, PlanOk.nil⟩
  · by_cases hjt : j = target
    · subst hjt
      exact fun hz => hfreed hz hj
    · have hf := hframe j hj.1 hjt
      exact hs.held j (hf.inUse.mp hj) (hf.links.mp hl)
  · have hj' : InUse s.live j := hs.refs j hj
    by_cases hjt : j = target
    · subst hjt
      exact (hbody hj).inUse.mpr hused
    · exact (hframe j hj'.1 hjt).inUse.mpr hj'

theorem closeInode_good (h : Good s) (i : Nat) : Good (closeInode s i) := by
  have hrefs : ∀ j, j ≠ i → (closed s i).openRefs j = s.openRefs j :=
    fun j hj => update_of_ne hj ..
  have hself : (closed s i).openRefs i = s.openRefs i - 1 := update_self ..
  rcases closeInode_spec h.sane i with ⟨_, heq⟩ | ⟨_, heq, hlinked⟩ | ⟨hused, hlinks, heq⟩ <;>
    rw [heq]
  · exact h
  · refine ⟨h.sane, fun j hj hl => ?_, fun j hj => ?_, h.plan⟩
    · have hji : j ≠ i := by
        rintro rfl
        exact hlinked hj hl
      rw [hrefs j hji]
      exact h.held j hj hl
    · refine h.refs j ?_
      by_cases hji : j = i
      · subst hji
        omega
      · rwa [hrefs j hji] at hj
  · obtain ⟨hsane, hkept, hopen, hfreed⟩ := h.sane.reaped (closed s i).openRefs hused hlinks
    refine ⟨hsane, fun j hj hl => ?_, fun j hj => ?_, h.plan⟩
    · by_cases hji : j = i
      · subst hji
        exact fun hz => hfreed hz hj
      · have hk := hkept j hji
        show (closed s i).openRefs j ≠ 0
        rw [hrefs j hji]
        exact h.held j (hk.inUse.mp hj) (hk.links.mp hl)
    · have hj : (closed s i).openRefs j ≠ 0 := hj
      by_cases hji : j = i
      · subst hji
        exact (hopen hj).inUse.mpr hused
      · rw [hrefs j hji] at hj
        exact (hkept j hji).inUse.mpr (h.refs j hj)

/-- Every operation keeps the invariant. -/
theorem Effect.good {op : Op} {status : Status} {ret : Option Nat} (h : Good s)
    (he : Effect s op status ret s') : Good s' := by
  cases he with
  | failed _ hL => exact h.of_unchanged hL
  | quiet _ htouch hrefs _ hplan =>
    exact h.of_frame_all (htouch.sane h.sane) hplan hrefs (fun j _ => (htouch.kept j).frame)
  | opened hi => exact h.addRef hi
  | emptied hi _ hcut =>
    obtain ⟨_, _, hbits, _, hlinks, _⟩ := hcut.facts h.sane
    refine (hcut.good h).addRef ⟨⟨hi.1.1, ?_⟩, ?_⟩
    · rw [hbits]
      exact hi.1.2
    · rw [hlinks]
      exact hi.2
  | created _ hcreate =>
    obtain ⟨hgood, hlive⟩ := hcreate.good h
    exact hgood.addRef hlive
  | made _ hcreate => exact (hcreate.good h).1
  | closed => exact closeInode_good h _
  | wroteNothing => exact h
  | written hwrite => exact hwrite.good h
  | sameSize => exact h
  | truncated hcut => exact hcut.good h
  | unlinked _ hremove => exact hremove.good h
  | removed _ hremove => exact hremove.good h
  | unmoved => exact h
  | renamed hrename =>
    obtain ⟨hsane, hframe⟩ := hrename.facts h.sane
    obtain ⟨leaf, now, plan, _, _, rfl, _⟩ := hrename.result
    exact h.of_frame_all hsane PlanOk.nil rfl hframe
  | moved hmove =>
    obtain ⟨hsane, hframe⟩ := hmove.facts
    obtain ⟨leaf, dst, G, now, plan, _, _, _, rfl, _⟩ := hmove.result
    exact h.of_frame_all hsane PlanOk.nil rfl hframe

theorem step_good (h : Good s) (op : Op) : Good (step s op) := (exec_effect h op).good h

/-! ## §3. Histories. -/

theorem format_inUse {now : Nat} (h : InUse (format now) j) : j = ROOT_INODE := beq_iff_eq.mp h.2

/-- A freshly formatted device. -/
theorem format_sane (now : Nat) : Sane (format now) := by
  have hdirect : ∀ j d, ((format now).inodes j).direct d = 0 := by
    intro j d
    show (if j = ROOT_INODE then _ else DiskInode.empty).direct d = 0
    split <;> rfl
  have hnone : ∀ j k e, entryOf (format now) j k ≠ some e := by
    intro j k e
    unfold entryOf
    split
    · rw [slotEntry_of_zero (hdirect j _)]
      exact nofun
    · exact nofun
  refine ⟨?_, ?_, ?_⟩
  · refine ⟨⟨⟨(by decide : ROOT_INODE < INODE_COUNT), rfl⟩, Nat.succ_ne_zero 1⟩, rfl, ?_, ?_, ?_,
      ?_, ?_, ⟨fun _ => 0, ?_⟩⟩
    · exact fun d k c a he => absurd he (hnone d k _)
    · exact fun d k c a he => absurd he (hnone d k _)
    · exact fun d k d' k' c a a' he => absurd he (hnone d k _)
    · exact fun d k k' c c' a he => absurd he (hnone d k _)
    · exact fun c hc hne => absurd (format_inUse hc.1) hne
    · exact fun d k c a he => absurd he (hnone d k _)
  · have hown : ∀ o b, ownOf (format now) o ≠ some b := by
      intro o b ho
      obtain ⟨_, _, heq, hne⟩ := ownOf_some ho
      exact hne (heq.symm.trans (hdirect o.1 o.2))
    refine ⟨fun o b ho => absurd ho (hown o b), fun o o' b ho =>
      absurd ho (hown o b), fun b hb => ?_⟩
    exact absurd hb.2.2 (by simp [format])
  · intro j hj
    by_cases hjr : j = ROOT_INODE
    · subst hjr
      have hreg : ((format now).inodes ROOT_INODE).type ≠ .regular := nofun
      refine ⟨?_, fun _ _ => rfl, fun hr => absurd hr hreg, fun hr => absurd hr hreg,
        fun hr => absurd hr hreg⟩
      exact ⟨nofun, nofun⟩
    · have hnode : (format now).inodes j = DiskInode.empty := if_neg hjr
      have hbit : (format now).inodeBitmap j = false := by
        simpa [format] using hjr
      have hreg : ((format now).inodes j).type ≠ .regular := by
        rw [hnode]
        decide
      refine ⟨?_, fun hb => absurd (hbit.symm.trans hb) (by simp), fun hr => absurd hr hreg,
        fun hr => absurd hr hreg, fun hr => absurd hr hreg⟩
      rw [hbit, hnode]
      exact ⟨fun _ => rfl, fun _ => rfl⟩

theorem format_good (now : Nat) : Good (Volume.format now) where
  sane := format_sane now
  held j hj hl := by
    obtain rfl := format_inUse hj
    exact absurd hl (by simp [Volume.format, format])
  refs j hj := absurd rfl hj
  plan := PlanOk.nil

theorem runOps_good_from (h : Good s) (ops : List Op) : Good (runOps s ops) := by
  induction ops generalizing s with
  | nil => exact h
  | cons op ops ih => exact ih (step_good h op)

/-- Every history from a fresh format keeps the invariant. -/
theorem runOps_good (now : Nat) (ops : List Op) : Good (runOps (Volume.format now) ops) :=
  runOps_good_from (format_good now) ops

end BigOS.Fs.Bigfs
