/-
  BigOS.Proc.Owners — who owns the frames and the open files, and what user memory keeps.

  A frame is owned by the leaves that map it and by the directory entry that holds it; an
  open file by the areas and the directory entries that refer to it.  The reference
  counts are those of the owners.  Every leaf lies in an area that grants what the leaf
  grants, except that a leaf is readable whether or not its area is, which is a mode of
  the invariant of its own; so is that a frame which can be written through a leaf has
  no other owner.

  Main results:
    • `owner`, `holder` — the owners,
    • `Inv` — the invariant,
    • `frameRefInc_some`, `frameRefDec_eq` — what the operations on counts do to a state
      that keeps it,
    • `frame_owners` — the count of one frame is that of its owners.
-/
import BigOS.Proc.Areas
import BigOS.Proc.Load

namespace BigOS.Proc

open BigOS.Lib BigOS.Mm Function Proc.System RefCount SharedReadonlyPage
open BigOS.Mm.Paging (PageAttr)

variable {s t : System} {root page f n : Nat} {leaf : Leaf} {space : AddressSpace}
  {entry : SharedReadonlyPage}

/-! ## §1. Owners. -/

/-- What owns a frame. -/
inductive Owner where
  | leaf (root page : Nat)
  | cache (k : Nat)
  deriving DecidableEq

theorem Owner.cache_ne_leaf (k root page : Nat) : Owner.cache k ≠ Owner.leaf root page := nofun

def System.owner (s : System) : Owner → Option Nat
  | .leaf root page => (s.leafAt root page).map Leaf.frame
  | .cache k => (s.shared k).map framePhys

/-- What holds a reference to an open file. -/
inductive Holder where
  | area (root i : Nat)
  | page (k : Nat)
  deriving DecidableEq

def System.holder (s : System) : Holder → Option Nat
  | .area root i => (s.spaces root).bind fun space => fileOf space.vmas i
  | .page k => (s.shared k).map backing

/-- The frame is in the directory. -/
def System.Cached (s : System) (f : Nat) : Prop := ∃ k, s.owner (.cache k) = some f

theorem owner_congr (hspaces : t.spaces = s.spaces) (hshared : t.shared = s.shared) :
    t.owner = s.owner := by
  funext o
  cases o with
  | leaf => simp only [owner, leafAt, hspaces]
  | cache => simp only [owner, hshared]

theorem holder_congr (hspaces : t.spaces = s.spaces) (hshared : t.shared = s.shared) :
    t.holder = s.holder := by
  funext o
  cases o with
  | area => simp only [holder, hspaces]
  | page => simp only [holder, hshared]

theorem leafAt_some : s.leafAt root page = some leaf ↔
      ∃ space, s.spaces root = some space ∧ space.leaves page = some leaf :=
  Option.bind_eq_some_iff

theorem leafAt_eq {space : AddressSpace} (hspace : s.spaces root = some space) (page : Nat) :
    s.leafAt root page = space.leaves page := by
  unfold leafAt
  rw [hspace]
  rfl

theorem owner_leaf (h : s.leafAt root page = some leaf) :
    s.owner (.leaf root page) = some leaf.frame := by
  simp [owner, h]

theorem owner_cache {k : Nat} (h : s.shared k = some entry) :
    s.owner (.cache k) = some entry.framePhys := by
  simp [owner, h]

/-! ## §2. Changes of one leaf, one space, one entry. -/

section

variable (h : s.spaces root = some space)

include h

theorem modifySpace_spaces (f : AddressSpace → AddressSpace) :
    (s.modifySpace root f).spaces = update s.spaces root (some (f space)) := by
  unfold modifySpace
  rw [h]
  rfl

theorem setLeaf_spaces (page : Nat) (leaf : Option Leaf) :
    (s.setLeaf root page leaf).spaces = update s.spaces root
      (some { space with leaves := update space.leaves page leaf }) :=
  modifySpace_spaces h _

theorem setLeaf_root (page : Nat) (leaf : Option Leaf) : (s.setLeaf root page leaf).spaces root =
      some { space with leaves := update space.leaves page leaf } := by
  rw [setLeaf_spaces h]
  exact update_self ..

end

/-- One leaf of a root is new or gone. -/
structure LeafSet (s t : System) (root page : Nat) (space : AddressSpace) (l : Option Leaf) :
    Prop where
  spaceAt : s.spaces root = some space
  spaces : t.spaces = update s.spaces root
    (some { space with leaves := update space.leaves page l })

theorem leafSet_setLeaf (hspace : s.spaces root = some space) (page : Nat) (l : Option Leaf) :
    LeafSet s (s.setLeaf root page l) root page space l :=
  ⟨hspace, setLeaf_spaces hspace page l⟩

/-- A space with the same files in its slots holds the same references. -/
theorem holder_update {space' : AddressSpace} (h : s.spaces root = some space)
    (hspaces : t.spaces = update s.spaces root (some space'))
    (hpage : ∀ k, t.holder (.page k) = s.holder (.page k))
    (hfiles : ∀ i, fileOf space'.vmas i = fileOf space.vmas i) : t.holder = s.holder := by
  funext o
  cases o with
  | page k => exact hpage k
  | area root' i =>
    simp only [holder, hspaces]
    by_cases hroot : root' = root
    · subst hroot
      rw [update_self, h]
      exact hfiles i
    · rw [update_of_ne hroot]

namespace LeafSet

variable {l : Option Leaf} (hset : LeafSet s t root page space l)

include hset

theorem leafAt_self : t.leafAt root page = l := by
  unfold leafAt
  rw [hset.spaces, update_self]
  exact update_self ..

theorem leafAt_other {root' page' : Nat} (hne : ¬(root' = root ∧ page' = page)) :
    t.leafAt root' page' = s.leafAt root' page' := by
  unfold leafAt
  rw [hset.spaces]
  by_cases hroot : root' = root
  · subst hroot
    have hpage : page' ≠ page := fun heq => hne ⟨rfl, heq⟩
    rw [update_self, hset.spaceAt]
    exact update_of_ne hpage ..
  · rw [update_of_ne hroot]

theorem owner_eq (hcache : ∀ k, t.owner (.cache k) = s.owner (.cache k)) :
    t.owner = update s.owner (.leaf root page) (l.map Leaf.frame) := by
  funext o
  by_cases ho : o = .leaf root page
  · subst ho
    rw [update_self]
    simp only [owner, hset.leafAt_self]
  rw [update_of_ne ho]
  cases o with
  | leaf root' page' =>
    have hne : ¬(root' = root ∧ page' = page) := by
      intro heq
      exact ho (by rw [heq.1, heq.2])
    simp only [owner, hset.leafAt_other hne]
  | cache k => exact hcache k

theorem holder_eq (hpage : ∀ k, t.holder (.page k) = s.holder (.page k)) : t.holder = s.holder :=
  holder_update hset.spaceAt hset.spaces hpage (fun _ => rfl)

end LeafSet

theorem owner_setLeaf (h : s.spaces root = some space) (page : Nat) (leaf : Option Leaf) :
    (s.setLeaf root page leaf).owner = update s.owner (.leaf root page) (leaf.map Leaf.frame) :=
  (leafSet_setLeaf h page leaf).owner_eq (fun _ => rfl)

theorem holder_setLeaf (h : s.spaces root = some space) (page : Nat) (leaf : Option Leaf) :
    (s.setLeaf root page leaf).holder = s.holder :=
  (leafSet_setLeaf h page leaf).holder_eq (fun _ => rfl)

theorem owner_setShared (s : System) (k : Nat) (entry : Option SharedReadonlyPage) :
    (s.setShared k entry).owner = update s.owner (.cache k) (entry.map framePhys) := by
  funext o
  by_cases ho : o = .cache k
  · subst ho
    simp [owner, setShared]
  rw [update_of_ne ho]
  cases o with
  | leaf => rfl
  | cache k' =>
    have hne : k' ≠ k := fun heq => ho (by rw [heq])
    simp [owner, setShared, update_of_ne hne]

theorem holder_setShared (s : System) (k : Nat) (entry : Option SharedReadonlyPage) :
    (s.setShared k entry).holder = update s.holder (.page k) (entry.map backing) := by
  funext o
  by_cases ho : o = .page k
  · subst ho
    simp [holder, setShared]
  rw [update_of_ne ho]
  cases o with
  | area => rfl
  | page k' =>
    have hne : k' ≠ k := fun heq => ho (by rw [heq])
    simp [holder, setShared, update_of_ne hne]

/-! ## §3. The invariant. -/

/-- How much of an address space stays as it is. -/
inductive Hold where
  /-- Nothing. -/
  | free
  /-- The space, but for pages that become copy-on-write. -/
  | frames
  /-- The whole space. -/
  | space
  deriving DecidableEq

/-- Which of the properties that some calls can break are kept. -/
structure Mode where
  /-- A frame that can be written through a leaf has no other owner. -/
  lone : Bool
  /-- A leaf lies in an area that can be read. -/
  readable : Bool
  /-- No frame is allocated and then forgotten. -/
  tight : Bool
  /-- The bytes of frames that have an owner stay. -/
  quiet : Bool
  /-- The pages of a root that stay mapped. -/
  keeps : Nat → Nat → Bool
  /-- What roots keep. -/
  hold : Nat → Hold

/-- A leaf and the area at its page, of which only the kind matters. -/
structure LeafOk (m : Mode) (s : System) (space : AddressSpace) (page : Nat) (leaf : Leaf)
    (kind : VmaEntry) : Prop where
  pageOk : pageAligned page
  frameOk : pageAligned leaf.frame
  area : kindAt space.vmas page = some kind
  attr : internalVmaAttrAllowed kind leaf.attr
  cached : s.Cached leaf.frame ↔ kind.backing = .fileBacked
  fixed : kind.backing = .fileBacked → leaf.attr.writable = false
  readable : m.readable → permissionsInclude kind.permissions VmaPermission.Read

/-- What every entry of the directory keeps. -/
structure EntryOk (s : System) (k : Nat) (entry : SharedReadonlyPage) : Prop where
  bound : k < MAX_SHARED_READONLY_PAGES
  count : count s.owner entry.framePhys = entry.pteRefs + 1
  mapped : 0 < entry.pteRefs

/-- What user memory keeps. -/
structure Inv (m : Mode) (s : System) : Prop where
  exact : Exact s.owner s.refcount s.allocated
  untracked : ∀ f, s.tracked f = false → s.refcount f = 0
  entries : ∀ k entry, s.shared k = some entry → EntryOk s k entry
  distinct : ∀ k k' f, s.owner (.cache k) = some f → s.owner (.cache k') = some f → k = k'
  areas : ∀ root space, s.spaces root = some space → VmasOk space.layout space.vmas
  leaves : ∀ root space page leaf, s.spaces root = some space →
    space.leaves page = some leaf → ∃ kind, LeafOk m s space page leaf kind
  lone : m.lone → ∀ root page leaf, s.leafAt root page = some leaf →
    leaf.attr.writable → ∀ o, s.owner o = some leaf.frame → o = .leaf root page
  held : Finitely s.holder
  files : ∀ f, count s.holder f ≤ s.fileRefs f

/-- A system without processes. -/
theorem System.Booted.inv (h : s.Booted) (m : Mode) : Inv m s := by
  have howner : s.owner = fun _ => none := by
    funext o
    cases o with
    | leaf => simp [owner, leafAt, h.spaces]
    | cache => simp [owner, h.shared]
  have hholder : s.holder = fun _ => none := by
    funext o
    cases o with
    | area => simp [holder, h.spaces]
    | page => simp [holder, h.shared]
  have hcount : ∀ {ι : Type} (f : Nat), count (fun _ : ι => (none : Option Nat)) f = 0 := by
    intro ι f
    simp [count]
  refine ⟨⟨?_, fun f => ?_, fun o f ho => ?_⟩, fun f _ => h.refcount f,
    fun k entry hk => ?_, fun k k' f hk => ?_, fun root space hroot => ?_,
    fun root space page leaf hroot => ?_, fun _ root page leaf hleaf => ?_, ?_, fun f => ?_⟩
  · rw [howner]
    simp [Finitely]
  · rw [howner, hcount, h.refcount]
    rfl
  · rw [howner] at ho
    cases ho
  · rw [h.shared] at hk
    cases hk
  · rw [howner] at hk
    cases hk
  · rw [h.spaces] at hroot
    cases hroot
  · rw [h.spaces] at hroot
    cases hroot
  · rw [leafAt_some] at hleaf
    obtain ⟨space, hroot, _⟩ := hleaf
    rw [h.spaces] at hroot
    cases hroot
  · rw [hholder]
    simp [Finitely]
  · rw [hholder, hcount]
    exact Nat.zero_le _

namespace Inv

variable {m : Mode} (h : Inv m s)

include h

section

variable (hspace : s.spaces root = some space) (hleaf : s.leafAt root page = some leaf)

include hspace hleaf

theorem leafOk : ∃ kind, LeafOk m s space page leaf kind := by
  rw [leafAt_eq hspace] at hleaf
  exact h.leaves root space page leaf hspace hleaf

/-- The leaf of a page whose area is known. -/
theorem leafOk_kind {kind : VmaEntry} (hkind : kindAt space.vmas page = some kind) :
    LeafOk m s space page leaf kind := by
  obtain ⟨kind', hok⟩ := h.leafOk hspace hleaf
  exact Option.some.inj (hok.area.symm.trans hkind) ▸ hok

theorem present_user : leaf.attr.present ∧ leaf.attr.user := by
  obtain ⟨_, hok⟩ := h.leafOk hspace hleaf
  have hattr := hok.attr
  unfold internalVmaAttrAllowed at hattr
  split at hattr
  · cases hattr
  · rename_i hcond
    simpa using hcond

end

/-- Every leaf is one that the walks of user memory see. -/
theorem readUserLeaf_eq (hspace : s.spaces root = some space) (page : Nat) :
    s.readUserLeafInRoot root page = s.leafAt root page := by
  unfold readUserLeafInRoot
  cases hleaf : s.leafAt root page with
  | none => simp
  | some =>
    obtain ⟨_, hok⟩ := h.leafOk hspace hleaf
    have hpu := h.present_user hspace hleaf
    rw [hok.pageOk]
    simp [Option.filter, hpu.1, hpu.2]

theorem refcount_ne_one (f : Nat) : s.refcount f ≠ 1 := by
  rw [h.exact.stored]
  unfold encode
  split <;> omega

omit h in
/-- The only entry of a frame is found. -/
theorem findShared_unique {k : Nat} {e : SharedReadonlyPage} (hk : s.shared k = some e)
    (hbound : k < MAX_SHARED_READONLY_PAGES)
    (honly : ∀ j other, s.shared j = some other → other.framePhys = e.framePhys → j = k) :
    s.findShared (fun other => other.framePhys == e.framePhys) = some k := by
  refine Slots.find_unique hbound (by simp [hk]) (fun j _ hj => ?_)
  cases hent : s.shared j with
  | none => simp [hent] at hj
  | some other => exact honly j other hent (by simpa [hent] using hj)

theorem sharedOfFrame_eq {k : Nat} (hk : s.shared k = some entry) :
    s.sharedOfFrame entry.framePhys = some (k, entry) := by
  unfold sharedOfFrame
  rw [findShared_unique hk (h.entries k entry hk).bound (fun j other hj hsame =>
    h.distinct j k _ (owner_cache hj) (hsame ▸ owner_cache hk))]
  simp [hk]

end Inv

theorem cached_entry (hf : s.Cached f) :
    ∃ k entry, s.shared k = some entry ∧ entry.framePhys = f := by
  obtain ⟨k, hk⟩ := hf
  cases hent : s.shared k with
  | none => simp [owner, hent] at hk
  | some entry => exact ⟨k, entry, hent, by simpa [owner, hent] using hk⟩

/-! ## §4. Reference counts. -/

theorem frameRefInc_some (h : s.frameRefInc f = some t) : s.tracked f ∧
      t = { s with refcount := update s.refcount f (inc (s.refcount f)) } := by
  unfold frameRefInc at h
  split at h
  · cases h
  rename_i htracked
  refine ⟨by simpa using htracked, ?_⟩
  split at h
  · rename_i hzero
    cases h
    rw [hzero]
    rfl
  · rename_i hzero
    split at h
    · cases h
    · cases h
      rw [inc, if_neg hzero]

theorem frameRefDec_eq (huntracked : s.tracked f = false → s.refcount f = 0) :
    s.frameRefDecAndMaybeFree f = { s with
        refcount := update s.refcount f (dec (s.refcount f))
        allocated :=
          if s.refcount f = 0 then update s.allocated f false else s.allocated } := by
  unfold frameRefDecAndMaybeFree
  by_cases hzero : s.refcount f = 0
  · rw [if_pos (by simp [hzero]), if_pos hzero]
    have hdec : update s.refcount f (dec (s.refcount f)) = s.refcount := by
      rw [hzero]
      exact update_eq_self_iff.mpr hzero.symm
    rw [hdec]
    rfl
  · have htracked : s.tracked f := by
      by_contra hf
      exact hzero (huntracked (by simpa using hf))
    rw [if_neg (by simp [htracked, hzero]), if_neg hzero]
    have hdec : (if s.refcount f - 1 = 1 then 0 else s.refcount f - 1) = dec (s.refcount f) := by
      unfold dec
      split <;> split <;> omega
    dsimp only
    rw [hdec]

/-- A reference that is taken and given back. -/
theorem frameRefDec_inc (hone : s.refcount f ≠ 1) (h : s.frameRefInc f = some t) :
    t.frameRefDecAndMaybeFree f = s := by
  obtain ⟨htracked, rfl⟩ := frameRefInc_some h
  have hpos : inc (s.refcount f) ≠ 0 := by
    unfold inc
    split <;> omega
  have hback : dec (inc (s.refcount f)) = s.refcount f := by
    unfold dec inc
    split <;> split <;> omega
  rw [frameRefDec_eq (by simp [htracked])]
  simp [hback, if_neg hpos]

/-! ## §5. The owners of one frame. -/

/-- What an owner of a frame does: it gives the frame to one more, or drops it. -/
inductive FrameCall
  | inc | dec

/-- A call, with the number of owners beside the system; without owners nobody calls. -/
def frameCall (f : Nat) : System × Nat → FrameCall → System × Nat
  | (s, 0), _ => (s, 0)
  | (s, n + 1), .inc =>
    match s.frameRefInc f with
    | none => (s, n + 1)
    | some t => (t, n + 2)
  | (s, n + 1), .dec => (s.frameRefDecAndMaybeFree f, n)

/-- The slot and the allocator know of all owners; without a slot there is one at most. -/
structure OwnedBy (f : Nat) (r : System × Nat) : Prop where
  stored : r.1.refcount f = encode r.2
  bound : r.2 ≤ if r.1.tracked f then FRAME_REFCOUNT_MAX else 1
  allocated : r.1.allocated f = decide (0 < r.2)

/-- An owner is refused without a slot, and where the slot would wrap. -/
theorem OwnedBy.refused (h : OwnedBy f (s, n + 1)) :
    s.frameRefInc f = none ↔ s.tracked f = false ∨ n + 1 = FRAME_REFCOUNT_MAX := by
  have hstored : s.refcount f = encode (n + 1) := h.stored
  unfold frameRefInc
  cases s.tracked f with
  | false => simp
  | true =>
    unfold encode at hstored
    simp only [Bool.not_true, Bool.false_eq_true, Bool.true_eq_false, if_false, false_or]
    split_ifs at hstored ⊢ <;> simp [FRAME_REFCOUNT_MAX] at * <;> omega

theorem OwnedBy.frameCall {r : System × Nat} (h : OwnedBy f r) (c : FrameCall) :
    OwnedBy f (frameCall f r c) := by
  obtain ⟨s, _ | n⟩ := r
  · exact h
  have hbound : n + 1 ≤ if s.tracked f then FRAME_REFCOUNT_MAX else 1 := h.bound
  cases c with
  | inc =>
    simp only [Proc.frameCall]
    split
    · exact h
    · rename_i t hinc
      have hroom := h.refused.not.mp (by rw [hinc]; nofun)
      obtain ⟨htracked, rfl⟩ := frameRefInc_some hinc
      rw [if_pos htracked] at hbound
      refine ⟨?_, ?_, h.allocated⟩
      · rw [← inc_encode n.succ_pos, ← h.stored]
        exact update_self ..
      · show n + 2 ≤ if s.tracked f then _ else _
        rw [if_pos htracked]
        omega
  | dec =>
    have hstored : s.refcount f = encode (n + 1) := h.stored
    have huntracked : s.tracked f = false → s.refcount f = 0 := by
      intro hf
      rw [hf] at hbound
      rw [hstored, encode, if_pos (by simpa using hbound)]
    show OwnedBy f (s.frameRefDecAndMaybeFree f, n)
    rw [frameRefDec_eq huntracked]
    refine ⟨?_, Nat.le_of_succ_le hbound, ?_⟩
    · show update s.refcount f _ f = _
      rw [update_self, hstored, dec_encode]
    · -- The slot is zero when the last owner drops the frame.
      have halloc : s.allocated f = true := h.allocated
      dsimp only
      rw [hstored]
      cases n with
      | zero => simp [encode]
      | succ n => simp [encode, halloc]

theorem OwnedBy.run {r : System × Nat} (h : OwnedBy f r) (calls : List FrameCall) :
    OwnedBy f (calls.foldl (Proc.frameCall f) r) := by
  induction calls generalizing r with
  | nil => exact h
  | cons c rest ih => exact ih (h.frameCall c)

/-- Along all calls of its owners a frame is allocated as long as it has one; its slot
tells whether it is shared, and one more owner is refused before the slot wraps. -/
theorem frame_owners (hzero : s.refcount f = 0) (halloc : s.allocated f) (calls : List FrameCall)
    (t : System) (n : Nat) (hrun : calls.foldl (frameCall f) (s, 1) = (t, n)) :
    (t.allocated f ↔ 0 < n) ∧ (t.frameRefIsShared f ↔ t.tracked f ∧ 2 ≤ n) ∧
      t.refcount f ≤ FRAME_REFCOUNT_MAX ∧ (0 < n → (t.frameRefInc f = none ↔
        t.tracked f = false ∨ n = FRAME_REFCOUNT_MAX)) := by
  have hfirst : OwnedBy f (s, 1) := by
    refine ⟨hzero, ?_, halloc⟩
    show 1 ≤ if s.tracked f then FRAME_REFCOUNT_MAX else 1
    split <;> decide
  have h := hfirst.run calls
  rw [hrun] at h
  have hstored : t.refcount f = encode n := h.stored
  have hbound : n ≤ if t.tracked f then FRAME_REFCOUNT_MAX else 1 := h.bound
  have hmax : n ≤ FRAME_REFCOUNT_MAX := hbound.trans (by split <;> decide)
  refine ⟨?_, ?_, ?_, ?_⟩
  · rw [show t.allocated f = _ from h.allocated, decide_eq_true_iff]
  · unfold frameRefIsShared
    rw [hstored, encode]
    split_ifs
    · simp
      omega
    · simp
  · rw [hstored, encode]
    split_ifs <;> omega
  · intro hpos
    obtain ⟨k, rfl⟩ := Nat.exists_eq_succ_of_ne_zero hpos.ne'
    exact h.refused

/-- Three owners, and the last of them frees the frame. -/
theorem frame_owners_three :
    let s : System := ⟨fun _ => none, fun _ => none, fun _ => 0, fun _ => true, fun _ _ => 0,
      fun _ => true, fun _ => true, fun _ => 0⟩
    let r := [.inc, .inc, .dec, .dec, .dec].foldl (frameCall 4096) (s, 1)
    r.2 = 0 ∧ (r.1.allocated 4096 ↔ 0 < r.2) := by
  intro s r
  exact ⟨rfl, (frame_owners (s := s) rfl rfl _ r.1 r.2 rfl).1⟩

end BigOS.Proc
