/-
  BigOS.Fs.Bigfs.Namespace — names, blocks and open inodes along every history.

  The structure of the image says that names are unique in their directory, that the
  linked inodes form a tree, and that blocks have one owner.  An operation that fails
  changes none of it.  An inode is freed only when its counter of references is zero;
  the counter has 32 bits, so it is the number of opens as long as fewer than `2 ^ 32`
  of one inode are open at a time.

  Main results:
    • `Effect.unchanged`, `Effect.stays` — what one operation leaves,
    • `namespace_structure` — every history,
    • `wrapped_counter_frees_open_inode` — `2 ^ 32` opens of one inode.
-/
import BigOS.Fs.Bigfs.Validation

namespace BigOS.Fs.Bigfs

open BigOS.Lib Function Volume

variable {s s' : Volume} {img : Image} {i : Nat} {op : Op} {status : Status} {ret : Option Nat}

/-! ## §1. One state. -/

/-- An entry of the first directory names the second inode. -/
def Names (img : Image) (d c : Nat) : Prop := ∃ k name, entryOf img d k = some (c, name)

/-- Names, the tree and the owners of blocks. -/
structure WellNamed (img : Image) : Prop where
  /-- No directory has two entries of one name. -/
  names : ∀ d k k' c c' name, entryOf img d k = some (c, name) →
    entryOf img d k' = some (c', name) → k = k'
  /-- A linked inode other than the root has one entry, in a directory that the root reaches. -/
  entry : ∀ c, InUse img c → (img.inodes c).linkCount ≠ 0 → c ≠ ROOT_INODE →
    ∃ d k name, NameTree.Reachable (tree img) d ∧ entryOf img d k = some (c, name) ∧
      ∀ d' k' name', entryOf img d' k' = some (c, name') → d' = d ∧ k' = k
  /-- The linked inodes are reachable from the root. -/
  reachable : ∀ c, InUse img c → (img.inodes c).linkCount ≠ 0 → NameTree.Reachable (tree img) c
  /-- No inode is below itself, and the root is below none. -/
  acyclic : ∀ d, ¬Relation.TransGen (Names img) d d
  root : ∀ d, ¬Names img d ROOT_INODE
  /-- No data block belongs to two inodes, nor twice to one. -/
  blocks : ∀ i j d e, InUse img i → InUse img j → d < DIRECT_BLOCKS → e < DIRECT_BLOCKS →
    (img.inodes i).direct d ≠ 0 → (img.inodes j).direct e = (img.inodes i).direct d → j = i ∧ e = d

theorem Sane.wellNamed (h : Sane img) : WellNamed img where
  names d k k' c c' name he he' := h.tree.names d k k' c c' name he he'
  entry c hc hl hne := by
    obtain ⟨d, k, name, he⟩ := h.tree.linked c ⟨hc, hl⟩ hne
    refine ⟨d, k, name, h.tree.reachable (h.tree.source d k c name he).1, he, ?_⟩
    exact fun d' k' name' he' => h.tree.unique d' k' d k c name' name he' he
  reachable c hc hl := h.tree.reachable ⟨hc, hl⟩
  acyclic := h.tree.acyclic (fun d c hn => hn)
  root d := by
    rintro ⟨k, name, he⟩
    exact (h.tree.target d k ROOT_INODE name he).2 rfl
  blocks i j d e hi hj hd he hne heq := h.direct_inj hi hj hd he hne heq

/-! ## §2. One operation. -/

/-- An operation that fails changes nothing. -/
theorem Effect.unchanged (he : Effect s op status ret s') (hne : status ≠ .success) :
    Unchanged s.live s'.live := by
  cases he with
  | failed _ hL => exact hL
  | _ => exact absurd rfl hne

/-- The references after an operation. -/
theorem Effect.refs (he : Effect s op status ret s') :
    (s'.openRefs = s.openRefs ∧ s'.opens = s.opens) ∨
    (∃ i, s'.openRefs = (addRef s i).openRefs ∧ s'.opens = (addRef s i).opens) ∨
    ∃ i, op = .close i ∧ s' = closeInode s i := by
  cases he with
  | failed => exact .inl ⟨rfl, rfl⟩
  | quiet _ _ hrefs hopens => exact .inl ⟨hrefs, hopens⟩
  | opened => exact .inr (.inl ⟨_, rfl, rfl⟩)
  | emptied _ _ hcut =>
    obtain ⟨committed, plan, now, _, rfl, _⟩ := hcut.result
    exact .inr (.inl ⟨_, rfl, rfl⟩)
  | created _ hcreate =>
    obtain ⟨k, G, plan, node, now, _, _, _, rfl, _⟩ := hcreate.result
    exact .inr (.inl ⟨_, rfl, rfl⟩)
  | made _ hcreate =>
    obtain ⟨k, G, plan, node, now, _, _, _, rfl, _⟩ := hcreate.result
    exact .inl ⟨rfl, rfl⟩
  | closed => exact .inr (.inr ⟨_, rfl, rfl⟩)
  | wroteNothing => exact .inl ⟨rfl, rfl⟩
  | written hwrite =>
    obtain ⟨img, direct, committed, plan, now, allocated, _, _, _, rfl, _⟩ := hwrite.result
    exact .inl ⟨rfl, rfl⟩
  | sameSize => exact .inl ⟨rfl, rfl⟩
  | truncated hcut =>
    obtain ⟨committed, plan, now, _, rfl, _⟩ := hcut.result
    exact .inl ⟨rfl, rfl⟩
  | unlinked _ hremove | removed _ hremove =>
    obtain ⟨now, plan, rfl, _⟩ := hremove.result
    exact .inl ⟨rfl, rfl⟩
  | unmoved => exact .inl ⟨rfl, rfl⟩
  | renamed hrename =>
    obtain ⟨leaf, now, plan, _, _, rfl, _⟩ := hrename.result
    exact .inl ⟨rfl, rfl⟩
  | moved hmove =>
    obtain ⟨leaf, dst, G, now, plan, _, _, _, rfl, _⟩ := hmove.result
    exact .inl ⟨rfl, rfl⟩

/-- The counters after a close. -/
theorem closeInode_counters (h : Sane s.live) (i : Nat) : (INODE_COUNT ≤ i ∧ closeInode s i = s) ∨
      (i < INODE_COUNT ∧ (closeInode s i).openRefs = (closed s i).openRefs ∧
        (closeInode s i).opens = (closed s i).opens) := by
  rcases closeInode_spec h i with hbeyond | ⟨hi, heq, _⟩ | ⟨hused, _, heq⟩
  · exact .inl hbeyond
  · rw [heq]
    exact .inr ⟨hi, rfl, rfl⟩
  · rw [heq]
    exact .inr ⟨hused.1, rfl, rfl⟩

/-- The inode is still in use, or its last reference was closed. -/
def Remains (s : Volume) (op : Op) (s' : Volume) (i : Nat) : Prop :=
  (InUse s'.live i ∧ (s'.live.inodes i).type = (s.live.inodes i).type) ∨
    (op = .close i ∧ s.openRefs i = 1)

/-- An inode in use stays in use, unless its counter is zero or falls to zero. -/
theorem Effect.stays (h : Good s) (he : Effect s op status ret s') (hi : InUse s.live i)
    (hrefs : s.openRefs i ≠ 0) : Remains s op s' i := by
  -- Most operations frame every inode, or all but one that is new or has a new content.
  have hframe : Frame s.live s'.live i → Remains s op s' i :=
    fun hf => .inl ⟨hf.inUse.mpr hi, hf.type⟩
  have hfile : ∀ {j : Nat} {t : Volume}, t.live = s'.live →
      (∀ l < INODE_COUNT, l ≠ j → Kept s.live t.live l) →
      t.live.inodeBitmap = s.live.inodeBitmap → (t.live.inodes j).type = .regular →
      (s.live.inodes j).type = .regular → Remains s op s' i := by
    intro j t hlive hkept hbits htype hreg
    unfold Remains
    rw [← hlive]
    refine .inl ⟨⟨hi.1, by rw [hbits]; exact hi.2⟩, ?_⟩
    by_cases hij : i = j
    · rw [hij, htype, hreg]
    · exact (hkept i hi.1 hij).type
  have hremoved : ∀ {parent k target : Nat}, Removes s parent k target s' → Remains s op s' i := by
    intro parent k target hremove
    obtain ⟨_, hothers, _, _, hbody⟩ := hremove.facts h.sane
    by_cases hit : i = target
    · subst hit
      exact .inl ⟨(hbody hrefs).inUse.mpr hi, (hbody hrefs).type⟩
    · exact .inl ⟨(hothers i hi.1 hit).inUse.mpr hi, (hothers i hi.1 hit).type⟩
  have hcreated : ∀ {parent child : Nat} {leaf : List UInt8} {type : InodeType} {t : Volume},
      Creates s parent leaf type child t → t.live = s'.live → Remains s op s' i := by
    intro parent child leaf type t hcreate hlive
    obtain ⟨_, hothers, _⟩ := hcreate.facts
    unfold Remains
    rw [← hlive]
    have hic : i ≠ child := fun heq => not_inUse_new hcreate.bit (heq ▸ hi)
    exact .inl ⟨(hothers i hi.1 hic).inUse.mpr hi, (hothers i hi.1 hic).type⟩
  cases he with
  | failed _ hL => exact hframe (hL.frame hi).frame
  | quiet _ htouch => exact hframe (htouch.kept i).frame
  | opened => exact hframe (Kept.refl _ _).frame
  | emptied _ _ hcut =>
    obtain ⟨_, hkept, hbits, htype, _, _⟩ := hcut.facts h.sane
    exact hfile rfl hkept hbits htype hcut.regular
  | created _ hcreate => exact hcreated hcreate rfl
  | made _ hcreate => exact hcreated hcreate rfl
  | @closed j =>
    rcases closeInode_spec h.sane j with ⟨_, heq⟩ | ⟨_, heq, _⟩ | ⟨hused, hlinks, heq⟩
    · rw [heq]
      exact .inl ⟨hi, rfl⟩
    · rw [heq]
      exact .inl ⟨hi, rfl⟩
    · obtain ⟨_, hkept, hopen, _⟩ := h.sane.reaped (Bigfs.closed s j).openRefs hused hlinks
      rw [heq]
      by_cases hij : i = j
      · subst hij
        by_cases hlast : (Bigfs.closed s i).openRefs i = 0
        · right
          have hself : (Bigfs.closed s i).openRefs i = s.openRefs i - 1 := update_self ..
          exact ⟨rfl, by omega⟩
        · exact .inl ⟨(hopen hlast).inUse.mpr hi, (hopen hlast).type⟩
      · exact .inl ⟨(hkept i hij).inUse.mpr hi, (hkept i hij).type⟩
  | wroteNothing => exact hframe (Kept.refl _ _).frame
  | written hwrite =>
    obtain ⟨_, hkept, hbits, htype, _, _⟩ := hwrite.facts h.sane
    exact hfile rfl hkept hbits htype hwrite.regular
  | sameSize => exact hframe (Kept.refl _ _).frame
  | truncated hcut =>
    obtain ⟨_, hkept, hbits, htype, _, _⟩ := hcut.facts h.sane
    exact hfile rfl hkept hbits htype hcut.regular
  | unlinked _ hremove => exact hremoved hremove
  | removed _ hremove => exact hremoved hremove
  | unmoved => exact hframe (Kept.refl _ _).frame
  | renamed hrename => exact hframe ((hrename.facts h.sane).2 i hi.1)
  | moved hmove => exact hframe (hmove.facts.2 i hi.1)

/-! ## §3. Counters. -/

/-- One operation opens one inode at most. -/
theorem step_opens_le (h : Good s) (op : Op) (i : Nat) : (step s op).opens i ≤ s.opens i + 1 := by
  rcases (exec_effect h op).refs with ⟨_, hopens⟩ | ⟨j, _, hopens⟩ | ⟨j, _, hclose⟩
  · show (exec s op).2.opens i ≤ _
    rw [hopens]
    exact Nat.le_succ _
  · show (exec s op).2.opens i ≤ _
    rw [hopens]
    show Function.update s.opens j (s.opens j + 1) i ≤ _
    by_cases hij : i = j
    · rw [hij, update_self]
    · rw [update_of_ne hij]
      exact Nat.le_succ _
  · show (exec s op).2.opens i ≤ _
    rw [hclose]
    rcases closeInode_counters h.sane j with ⟨_, heq⟩ | ⟨_, _, hopens⟩
    · rw [heq]
      exact Nat.le_succ _
    rw [hopens]
    show Function.update s.opens j (s.opens j - 1) i ≤ _
    by_cases hij : i = j
    · rw [hij, update_self]
      omega
    · rw [update_of_ne hij]
      exact Nat.le_succ _

theorem runOps_opens_le (h : Good s) (ops : List Op) (i : Nat) :
    (runOps s ops).opens i ≤ s.opens i + ops.length := by
  induction ops generalizing s with
  | nil => exact Nat.le_refl _
  | cons op ops ih =>
    have hstep := step_opens_le h op i
    have hrest := ih (step_good h op)
    rw [runOps_cons, List.length_cons]
    omega

/-- The counter is the number of opens, as long as that fits into it. -/
theorem step_counter (h : Good s) (op : Op) (hcount : ∀ i, s.openRefs i = s.opens i)
    (hbound : ∀ i, (step s op).opens i < 2 ^ 32) (i : Nat) :
    (step s op).openRefs i = (step s op).opens i := by
  have hb := hbound i
  rcases (exec_effect h op).refs with ⟨hrefs, hopens⟩ | ⟨j, hrefs, hopens⟩ | ⟨j, _, hclose⟩
  · show (exec s op).2.openRefs i = (exec s op).2.opens i
    rw [hrefs, hopens]
    exact hcount i
  · change (exec s op).2.opens i < 2 ^ 32 at hb
    show (exec s op).2.openRefs i = (exec s op).2.opens i
    rw [hopens] at hb ⊢
    rw [hrefs]
    change Function.update s.opens j (s.opens j + 1) i < 2 ^ 32 at hb
    show Function.update s.openRefs j ((s.openRefs j + 1) % 2 ^ 32) i =
      Function.update s.opens j (s.opens j + 1) i
    by_cases hij : i = j
    · rw [hij, update_self] at hb
      rw [hij, update_self, update_self, hcount j, Nat.mod_eq_of_lt hb]
    · rw [update_of_ne hij, update_of_ne hij]
      exact hcount i
  · show (exec s op).2.openRefs i = (exec s op).2.opens i
    rw [hclose]
    rcases closeInode_counters h.sane j with ⟨_, heq⟩ | ⟨_, hrefs, hopens⟩
    · rw [heq]
      exact hcount i
    rw [hrefs, hopens]
    show Function.update s.openRefs j (s.openRefs j - 1) i =
      Function.update s.opens j (s.opens j - 1) i
    by_cases hij : i = j
    · rw [hij, update_self, update_self, hcount j]
    · rw [update_of_ne hij, update_of_ne hij]
      exact hcount i

/-- At no point of the history are `2 ^ 32` opens of one inode outstanding. -/
def FewOpens (s : Volume) (ops : List Op) : Prop :=
  ∀ before after, ops = before ++ after → ∀ i, (runOps s before).opens i < 2 ^ 32

theorem runOps_counter (h : Good s) (hcount : ∀ i, s.openRefs i = s.opens i) (ops : List Op)
    (hfew : FewOpens s ops) (i : Nat) : (runOps s ops).openRefs i = (runOps s ops).opens i := by
  induction ops generalizing s with
  | nil => exact hcount i
  | cons op ops ih =>
    have hstep := step_counter h op hcount (hfew [op] ops rfl)
    refine ih (step_good h op) hstep (fun before after heq => ?_)
    exact hfew (op :: before) after (by rw [heq]; rfl)

/-- A history that is short has few opens. -/
theorem fewOpens_of_length (h : Good s) (hzero : ∀ i, s.opens i = 0) {ops : List Op}
    (hlen : ops.length < 2 ^ 32) : FewOpens s ops := by
  intro before after heq i
  have hle := runOps_opens_le h before i
  have hbefore : before.length ≤ ops.length := by
    rw [heq, List.length_append]
    exact Nat.le_add_right ..
  rw [hzero i] at hle
  omega

/-! ## §4. Histories. -/

/-- Names, tree and blocks after every history; what is open stays in use until its last
close and is not taken for a new object; and an operation that fails changes nothing. -/
theorem namespace_structure (now : Nat) (ops : List Op) (hfew : FewOpens (format now) ops) :
    WellNamed (runOps (format now) ops).live ∧
    (∀ op i, (runOps (format now) ops).opens i ≠ 0 → InUse (runOps (format now) ops).live i ∧
      ((InUse (step (runOps (format now) ops) op).live i ∧
          ((step (runOps (format now) ops) op).live.inodes i).type =
            ((runOps (format now) ops).live.inodes i).type) ∨
        (op = .close i ∧ (runOps (format now) ops).opens i = 1))) ∧
    ∀ op, (exec (runOps (format now) ops) op).1 ≠ .success →
      Unchanged (runOps (format now) ops).live (step (runOps (format now) ops) op).live := by
  have hgood := runOps_good now ops
  have hcount := runOps_counter (format_good now) (fun _ => rfl) ops hfew
  refine ⟨hgood.sane.wellNamed, fun op i hopen => ?_, fun op hne => ?_⟩
  · rw [← hcount i] at hopen ⊢
    have hused := hgood.refs i hopen
    exact ⟨hused, (exec_effect hgood op).stays hgood hused hopen⟩
  · exact (exec_effect hgood op).unchanged hne

/-- The file `/rw/a` is created, stays open and is unlinked. -/
theorem namespace_structure_open_file :
    FewOpens (format 0) [.open_ pathA ⟨false, true, true, false⟩ 420 0 0 1] ∧
      (runOps (format 0) [.open_ pathA ⟨false, true, true, false⟩ 420 0 0 1]).opens 1 ≠ 0 ∧
      InUse (runOps (format 0) [.open_ pathA ⟨false, true, true, false⟩ 420 0 0 1]).live 1 := by
  have hfew : FewOpens (format 0) [.open_ pathA ⟨false, true, true, false⟩ 420 0 0 1] :=
    fewOpens_of_length (format_good 0) (fun _ => rfl) (by decide)
  have hopen : (runOps (format 0)
      [.open_ pathA ⟨false, true, true, false⟩ 420 0 0 1]).opens 1 ≠ 0 := by decide +kernel
  refine ⟨hfew, hopen, ?_⟩
  exact ((namespace_structure 0 [.open_ pathA ⟨false, true, true, false⟩ 420 0 0 1] hfew).2.1
    .sync 1 hopen).1

/-! ## §5. The counter wraps. -/

/-- The state after `n` more opens of an inode. -/
def reopened (s : Volume) (i n : Nat) : Volume :=
  { s with
    openRefs := Function.update s.openRefs i ((s.openRefs i + n) % 2 ^ 32)
    opens := Function.update s.opens i (s.opens i + n) }

theorem reopened_addRef (s : Volume) (i n : Nat) :
    reopened (addRef s i) i n = reopened s i (n + 1) := by
  have hrefs : ((addRef s i).openRefs i + n) % 2 ^ 32 = (s.openRefs i + (n + 1)) % 2 ^ 32 := by
    show (Function.update s.openRefs i ((s.openRefs i + 1) % 2 ^ 32) i + n) % 2 ^ 32 = _
    rw [update_self]
    omega
  have hopens : (addRef s i).opens i + n = s.opens i + (n + 1) := by
    show Function.update s.opens i (s.opens i + 1) i + n = _
    rw [update_self]
    omega
  unfold reopened
  rw [hrefs, hopens]
  show mk _ _ _ _ (Function.update (Function.update _ _ _) _ _)
    (Function.update (Function.update _ _ _) _ _) = _
  rw [update_idem, update_idem]
  rfl

/-- Where an open takes a reference only, opening again and again counts them. -/
theorem runOps_reopen (i : Nat) (op : Op)
    (hop : ∀ t : Volume, t.live = s.live → step t op = addRef t i) (n : Nat)
    (hrefs : s.openRefs i < 2 ^ 32) : runOps s (List.replicate n op) = reopened s i n := by
  induction n generalizing s with
  | zero =>
    show s = mk ..
    rw [Nat.add_zero, Nat.add_zero, Nat.mod_eq_of_lt hrefs, update_eq_self, update_eq_self]
  | succ n ih =>
    have hlive : (addRef s i).live = s.live := rfl
    have hlt : (addRef s i).openRefs i < 2 ^ 32 := by
      show Function.update s.openRefs i ((s.openRefs i + 1) % 2 ^ 32) i < 2 ^ 32
      rw [update_self]
      exact Nat.mod_lt _ (by decide)
    rw [List.replicate_succ, runOps_cons, hop s rfl, ← reopened_addRef]
    exact ih (fun t ht => hop t (ht.trans hlive)) hlt

/-- The open of a regular file that exists takes a reference. -/
theorem step_open_existing {t : Volume} {path : CString} (rest leaf : List UInt8) (parent : Nat)
    {flags : OpenFlags} (mode uid gid now : Nat) (hstrip : stripMount path.bytes = some rest)
    (hname : components rest ≠ []) (hres : resolveDir t.live path = .ok (parent, leaf))
    (hlook : dirLookup t.live (t.live.inodes parent) leaf = some i) (hi : i < INODE_COUNT)
    (htype : (t.live.inodes i).type = .regular) (hperm : permits (t.live.inodes i) uid gid
      (if flags.wronly || flags.rdwr || flags.trunc then .write else .read))
    (htrunc : flags.trunc = false) : step t (.open_ path flags mode uid gid now) = addRef t i := by
  have hexisting : openExisting t i flags uid gid now = (.success, some i, addRef t i) := by
    unfold openExisting
    have hdir : ¬(t.live.inodes i).type = .directory := by
      rw [htype]
      decide
    refine (if_neg (Nat.not_le.mpr hi)).trans ((if_neg hdir).trans ((if_neg ?_).trans (if_neg ?_)))
    · rw [hperm]
      decide
    · rw [htrunc]
      decide
  show (open_ t path flags mode uid gid now).2.2 = addRef t i
  unfold open_
  simp only [hstrip, if_neg hname, hres, hlook, hexisting]

/-- The volume with `/rw/a` created and open. -/
def volumeA : Volume := runOps (format 0) [.open_ pathA ⟨false, true, true, false⟩ 420 0 0 1]

/-- With `2 ^ 32` opens outstanding the counter is zero, and an unlink frees the inode. -/
theorem wrapped_counter_frees_open_inode : (runOps volumeA (List.replicate (2 ^ 32 - 1)
      (.open_ pathA ⟨false, true, false, false⟩ 0 0 0 1))).opens 1 = 2 ^ 32 ∧
    InUse (runOps volumeA (List.replicate (2 ^ 32 - 1)
      (.open_ pathA ⟨false, true, false, false⟩ 0 0 0 1))).live 1 ∧
    ¬InUse (step (runOps volumeA (List.replicate (2 ^ 32 - 1)
      (.open_ pathA ⟨false, true, false, false⟩ 0 0 0 1))) (.unlink pathA 0 0 2)).live 1 := by
  have hop : ∀ t : Volume, t.live = volumeA.live →
      step t (.open_ pathA ⟨false, true, false, false⟩ 0 0 0 1) = addRef t 1 := by
    intro t ht
    refine step_open_existing [47, 97] [97] ROOT_INODE 0 0 0 1 (by decide +kernel)
      (by decide +kernel) ?_ ?_ (by decide) ?_ ?_ rfl
    all_goals rw [ht]
    all_goals decide +kernel
  rw [runOps_reopen 1 _ hop (2 ^ 32 - 1) (by decide +kernel)]
  decide +kernel

end BigOS.Fs.Bigfs
