/-
  BigOS.Proc.Spaces — whole address spaces, as effects.

  A teardown first takes the pages of files out, through the directory, and then all
  other leaves; the references of the areas go with the space.  A fork makes a space with
  the areas of the parent, which take references of their own, and then copies or shares
  leaf by leaf; when a leaf fails, the space is torn down again.

  Main results:
    • `destroySpace_effects` — a space goes, with its leaves and its references,
    • `Cloning.effects` — a leaf is copied or shared, and a leaf that could be
      written becomes copy-on-write in both spaces,
    • `forkCurrent_effects` — a fork, with or without success.
-/
import BigOS.Proc.Calls

namespace BigOS.Proc

open BigOS.Lib BigOS.Mm Function Proc.System List
open BigOS.Mm.Paging (PageAttr)

variable {s : System} {space sp : AddressSpace} {page root : Nat} {leaf : Leaf} {vma : VmaEntry}
  {attr : PageAttr}

/-! ## §1. References of areas. -/

section Files

/-- The files of a collection, slot by slot. -/
theorem backingFiles_eq (vmas : VmaCollection) :
    vmas.backingFiles = (List.range MAX_VMAS).filterMap (fileOf vmas) := by
  unfold VmaCollection.backingFiles VmaCollection.areas
  rw [filterMap_filterMap]
  rfl

theorem count_backingFiles {layout : UserRuntimeLayout} {vmas : VmaCollection}
    (h : VmasOk layout vmas) (f : Nat) :
    RefCount.count (fileOf vmas) f = vmas.backingFiles.count f := by
  rw [backingFiles_eq]
  exact RefCount.count_range (fun _ => h.fileOf_lt) f

theorem mem_areas {vmas : VmaCollection} :
    vma ∈ vmas.areas ↔ ∃ i < MAX_VMAS, vmas.entries i = some vma := by
  unfold VmaCollection.areas
  simp

/-- The references of files, one after another. -/
theorem foldl_fileRefs (g : Nat → Nat) (files : List Nat) (s : System) :
    files.foldl (fun s f => { s with fileRefs := update s.fileRefs f (g (s.fileRefs f)) }) s =
      { s with fileRefs := fun f => g^[files.count f] (s.fileRefs f) } := by
  induction files generalizing s with
  | nil => rfl
  | cons file rest ih =>
    rw [foldl_cons, ih]
    congr 1
    funext f
    dsimp only
    by_cases hf : file = f
    · rw [hf, update_self, count_cons_self, iterate_succ_apply]
    · rw [update_of_ne (Ne.symm hf), count_cons_of_ne hf]

theorem foldl_retainFile (files : List Nat) (s : System) :
    files.foldl retainFile s = { s with fileRefs := fun f => s.fileRefs f + files.count f } := by
  have hrefs := foldl_fileRefs Nat.succ files s
  simp only [Nat.succ_iterate] at hrefs
  exact hrefs

theorem foldl_releaseFile (files : List Nat) (s : System) :
    files.foldl releaseFile s = { s with fileRefs := fun f => s.fileRefs f - files.count f } := by
  have hrefs := foldl_fileRefs Nat.pred files s
  simp only [Nat.pred_iterate] at hrefs
  exact hrefs

end Files

/-! ## §2. Teardown. -/

section Teardown

variable {m : Mode} {leaves : Nat → Option Leaf}

/-- The mode keeps nothing of a root. -/
structure Mode.Free (m : Mode) (root : Nat) : Prop where
  hold : m.hold root = .free
  keeps : ∀ page, m.keeps root page = false

/-- The leaves that are left when an area of a file has lost its pages. -/
def withoutShared (vma : VmaEntry) (leaves : Nat → Option Leaf) : Nat → Option Leaf :=
  if vma.backing = .fileBacked then withoutPages (pagesIn vma.start vma.stop) leaves else leaves

theorem withoutShared_none (h : leaves page = none) : withoutShared vma leaves page = none := by
  unfold withoutShared
  split
  · unfold withoutPages
    split
    · rfl
    · exact h
  · exact h

section

variable (h : Inv m s) (hfree : m.Free root) (hspace : s.spaces root = some space)

include h hfree hspace

/-- `unmap_shared_file_backed_pages`, for one area. -/
theorem unmapSharedArea_effects {i : Nat} (hi : space.vmas.entries i = some vma) :
    Effects m s (s.unmapSharedArea root vma) ∧ (s.unmapSharedArea root vma).spaces =
      update s.spaces root (some { space with leaves := withoutShared vma space.leaves }) := by
  have hok := h.areas root space hspace
  unfold unmapSharedArea withoutShared
  by_cases hback : vma.backing = .fileBacked
  · rw [if_neg (by simp [hback]), if_pos hback]
    refine foldl_pages _ (fun sp page => ∀ kind, kindAt sp.vmas page = some kind →
      kind.backing = .fileBacked) ?_ (fun _ _ _ hgood => hgood) _ s space h hspace ?_
    · intro s space page h hspace hgood
      unfold unmapUserPageInRoot
      rw [h.readUserLeaf_eq hspace]
      cases hat : s.leafAt root page with
      | none =>
        rw [leafAt_eq hspace] at hat
        exact ⟨.refl, update_leaves_none hspace hat⟩
      | some leaf =>
        obtain ⟨kind, hleafOk⟩ := h.leafOk hspace hat
        have hcached : s.Cached leaf.frame := hleafOk.cached.mpr (hgood kind hleafOk.area)
        refine ⟨.single (.dropCached hat hcached (hfree.keeps page) hfree.hold), ?_⟩
        show ((s.setLeaf root page none).sharedReadonlyDropMapping leaf.frame).spaces = _
        obtain ⟨k, entry, hk, hframe⟩ := cached_entry hcached
        rw [← hframe, h.dropMapping_eq hk]
        split <;> exact setLeaf_spaces hspace page none
    · intro page hpage kind hkind
      have haligned := (runtimeVmaAllowed_bounds (hok.allowed i vma hi)).2.1
      have hin := (mem_pagesIn haligned vma.stop page).mp hpage
      have hat : vmaAt space.vmas page = some vma := (vmaAt_iff hok).mpr ⟨i, hi, hin.1, hin.2.1⟩
      cases (kindAt_of hat).symm.trans hkind
      exact hback
  · rw [if_pos (by simp [hback]), if_neg hback]
    refine ⟨.refl, ?_⟩
    show s.spaces = update s.spaces root (some space)
    rw [← hspace, update_eq_self]

/-- What is left when the pages of files are gone. -/
theorem unmapSharedFileBackedPages_effects :
    ∃ leaves, Effects m s (s.unmapSharedFileBackedPages root space.vmas) ∧
      (s.unmapSharedFileBackedPages root space.vmas).spaces =
        update s.spaces root (some { space with leaves := leaves }) ∧
      ∀ page kind, kindAt space.vmas page = some kind → kind.backing = .fileBacked →
        pageAligned page → leaves page = none := by
  -- By induction over the areas: each takes its own pages and leaves the gaps of the others.
  have hareas : ∀ (areas : List VmaEntry) (s : System) (leaves : Nat → Option Leaf), Inv m s →
      s.spaces root = some { space with leaves := leaves } →
      (∀ vma ∈ areas, ∃ i, space.vmas.entries i = some vma) →
      ∃ leaves', Effects m s (areas.foldl (fun s vma => s.unmapSharedArea root vma) s) ∧
        (areas.foldl (fun s vma => s.unmapSharedArea root vma) s).spaces =
          update s.spaces root (some { space with leaves := leaves' }) ∧
        (∀ page, leaves page = none → leaves' page = none) ∧
        ∀ vma ∈ areas, vma.backing = .fileBacked → ∀ page ∈ pagesIn vma.start vma.stop,
          leaves' page = none := by
    intro areas
    induction areas with
    | nil =>
      intro s leaves _ hroot _
      refine ⟨leaves, .refl, ?_, fun _ hnone => hnone, fun _ hmem => absurd hmem (by simp)⟩
      show s.spaces = _
      rw [← hroot, update_eq_self]
    | cons vma rest ih =>
      intro s leaves h hroot hmem
      obtain ⟨i, hi⟩ := hmem vma mem_cons_self
      have hfirst := unmapSharedArea_effects h hfree hroot hi
      obtain ⟨leaves', heff, hspaces, hgap, hgone⟩ := ih (s.unmapSharedArea root vma) _
        (hfirst.1.inv h) (spaceAt_of hfirst.2) (fun v hv => hmem v (mem_cons_of_mem _ hv))
      refine ⟨leaves', hfirst.1.trans heff, ?_,
        fun page hnone => hgap page (withoutShared_none hnone), fun v hv hback page hpage => ?_⟩
      · rw [foldl_cons, hspaces, hfirst.2, update_idem]
      · rcases mem_cons.mp hv with heq | hrest
        · subst heq
          refine hgap page ?_
          unfold withoutShared withoutPages
          rw [if_pos hback]
          exact if_pos hpage
        · exact hgone v hrest hback page hpage
  obtain ⟨leaves, heff, hspaces, _, hgone⟩ := hareas space.vmas.areas s space.leaves h hspace
    (fun vma hvma => (mem_areas.mp hvma).imp fun _ hi => hi.2)
  refine ⟨leaves, heff, hspaces, fun page kind hkind hback haligned => ?_⟩
  obtain ⟨vma, hat, rfl⟩ := kindAt_some.mp hkind
  obtain ⟨i, _, hi, hlo, hhi⟩ := vmaAt_some hat
  have hok := h.areas root space hspace
  have hstart := (runtimeVmaAllowed_bounds (hok.allowed i vma hi)).2.1
  exact hgone vma (mem_areas.mpr ⟨i, hok.bound i vma hi, hi⟩) hback page
    ((mem_pagesIn hstart vma.stop page).mpr ⟨hlo, hhi, haligned⟩)

end

theorem mem_lowHalfPages : page ∈ lowHalfPages ↔ page < USER_LOW_HALF_LIMIT ∧ pageAligned page := by
  have hzero : pageAligned 0 := rfl
  unfold lowHalfPages
  rw [mem_pagesIn hzero]
  exact ⟨fun h => h.2, fun h => ⟨Nat.zero_le _, h⟩⟩

/-- What `teardown_user_address_space` does when the pages of files are gone. -/
theorem teardownLeaves_effects (h : Inv m s) (hfree : m.Free root)
    (hspace : s.spaces root = some space)
    (hfiles : ∀ page kind, kindAt space.vmas page = some kind → kind.backing = .fileBacked →
      pageAligned page → space.leaves page = none) :
    Effects m s (s.teardownLeaves root) ∧ (s.teardownLeaves root).spaces = update s.spaces root
        (some { space with leaves := withoutPages lowHalfPages space.leaves }) := by
  unfold teardownLeaves
  -- A page of a file has no leaf, and loses none.
  refine foldl_pages _ (fun sp page => ∀ kind, kindAt sp.vmas page = some kind →
    kind.backing = .fileBacked → pageAligned page = true → sp.leaves page = none)
    (fun _ _ page hinv hsp hgood => dropLeaf_effects hinv hfree.hold hsp (hfree.keeps page)
      hgood) ?_ _ s space h hspace (fun page _ kind => hfiles page kind)
  intro space p page hgood kind hkind hback haligned
  show update space.leaves p none page = none
  by_cases hp : page = p
  · rw [hp, update_self]
  · rw [update_of_ne hp]
    exact hgood kind hkind hback haligned

/-- A space whose leaves are all below the pages that were taken out has none. -/
theorem Inv.no_leaves {s : System} {space : AddressSpace} (h : Inv m s)
    (hspace : s.spaces root = some { space with leaves := withoutPages lowHalfPages leaves })
    (page : Nat) : withoutPages lowHalfPages leaves page = none := by
  cases hleaf : withoutPages lowHalfPages leaves page with
  | none => rfl
  | some leaf =>
    obtain ⟨_, hleafOk⟩ := h.leaves root _ page leaf hspace hleaf
    obtain ⟨vma, hat, _⟩ := kindAt_some.mp hleafOk.area
    obtain ⟨i, hfind, _⟩ := vmaAt_some hat
    have hlow := (internalFindVma_some hfind).1
    have hmem := mem_lowHalfPages.mpr ⟨hlow, hleafOk.pageOk⟩
    unfold withoutPages at hleaf
    rw [if_pos hmem] at hleaf
    cases hleaf

/-- A space without leaves goes, with the references of its areas. -/
theorem releaseSpace_effect (hfree : m.hold root = .free) (hspace : s.spaces root = some space)
    (hempty : ∀ page, space.leaves page = none) (hok : VmasOk space.layout space.vmas) :
    Effect m s (releaseFileBackedVmas
      { s with spaces := update s.spaces root none } space.vmas) := by
  unfold releaseFileBackedVmas
  rw [foldl_releaseFile]
  exact .removeSpace hspace hempty (fun f => by rw [count_backingFiles hok f]) hfree

/-- The address space of a process goes. -/
theorem destroySpace_effects (h : Inv m s) (hfree : m.Free root) :
    Effects m s (s.destroySpace root) ∧
      (s.destroySpace root).spaces = update s.spaces root none := by
  unfold destroySpace teardownProcessAddressSpace
  cases hspace : s.spaces root with
  | none => exact ⟨.refl, (update_eq_self_iff.mpr hspace.symm).symm⟩
  | some space =>
    obtain ⟨leaves, hshared, hspaces, hgone⟩ := unmapSharedFileBackedPages_effects h hfree hspace
    have hrest := teardownLeaves_effects (hshared.inv h) hfree (spaceAt_of hspaces) hgone
    dsimp only
    -- What is left is looked at from outside: the walk itself must not be evaluated.
    generalize (s.unmapSharedFileBackedPages root space.vmas).teardownLeaves root = torn at hrest ⊢
    have hinv : Inv m torn := hrest.1.inv (hshared.inv h)
    have hroot := spaceAt_of hrest.2
    have hrelease := releaseSpace_effect hfree.hold hroot (hinv.no_leaves hroot)
      (h.areas root space hspace)
    refine ⟨(hshared.trans hrest.1).tail hrelease, ?_⟩
    unfold releaseFileBackedVmas
    rw [foldl_releaseFile]
    show update torn.spaces root none = _
    rw [hrest.2, hspaces, update_idem, update_idem]

end Teardown

/-! ## §3. Forks. -/

section Fork

variable {m : Mode} {parent child : Nat} {l : Option Leaf} {env : ForkEnv}

/-- Two spaces with the same areas: the parent's and the copy of it. -/
structure Forking (s : System) (parent child : Nat) (space : AddressSpace) : Prop where
  parentAt : ∃ sp, s.spaces parent = some sp ∧ sp.vmas = space.vmas
  childAt : ∃ ch, s.spaces child = some ch ∧ ch.vmas = space.vmas

theorem Forking.congr {t : System} (h : Forking s parent child space)
    (hspaces : t.spaces = s.spaces) : Forking t parent child space :=
  ⟨hspaces ▸ h.parentAt, hspaces ▸ h.childAt⟩

theorem setLeaf_vmas {root' : Nat} {vmas : VmaCollection}
    (h : ∃ sp, s.spaces root' = some sp ∧ sp.vmas = vmas) :
    ∃ sp, (s.setLeaf root page l).spaces root' = some sp ∧ sp.vmas = vmas := by
  obtain ⟨sp, hsp, hvmas⟩ := h
  unfold setLeaf modifySpace
  dsimp only
  by_cases hroot : root' = root
  · rw [hroot, update_self, ← hroot, hsp]
    exact ⟨_, rfl, hvmas⟩
  · rw [update_of_ne hroot]
    exact ⟨sp, hsp, hvmas⟩

theorem Forking.setLeaf (h : Forking s parent child space) (root page : Nat) (l : Option Leaf) :
    Forking (s.setLeaf root page l) parent child space :=
  ⟨setLeaf_vmas h.parentAt, setLeaf_vmas h.childAt⟩

/-- The parent and its child after a part of a fork. -/
def Cloned (m : Mode) (s t : System) (parent child : Nat) (space : AddressSpace) : Prop :=
  Effects m s t ∧ Forking t parent child space

theorem cowSharedAttr_allowed {kind : VmaEntry} (h : internalVmaAttrAllowed kind attr) :
    internalVmaAttrAllowed kind (cowSharedAttr attr) := by
  unfold internalVmaAttrAllowed cowSharedAttr at *
  split at h
  · cases h
  rename_i hcond
  rw [if_neg hcond]
  split at h
  · cases h
  · simpa using h

/-- A leaf of the parent that is to be given to the child. -/
structure Cloning (m : Mode) (s : System) (parent child page : Nat) (space sp : AddressSpace)
    (vma : VmaEntry) (leaf : Leaf) : Prop where
  inv : Inv m s
  forking : Forking s parent child space
  free : m.hold child = .free
  parentAt : s.spaces parent = some sp
  at_ : s.leafAt parent page = some leaf
  leafOk : LeafOk m s sp page leaf vma.kind

namespace Cloning

variable (h : Cloning m s parent child page space sp vma leaf) {counted : System}

include h

/-- The child has the areas of its parent, and so a place for the leaf. -/
theorem vacant (hnone : s.leafAt child page = none) (hattr : internalVmaAttrAllowed vma.kind attr) :
    ∃ ch, Vacant m s child page ch vma.kind attr := by
  obtain ⟨ch, hchild, hvmas⟩ := h.forking.childAt
  obtain ⟨sp', hparent, hvmas'⟩ := h.forking.parentAt
  cases h.parentAt.symm.trans hparent
  rw [leafAt_eq hchild] at hnone
  exact ⟨ch, h.free, hchild, hnone, h.leafOk.pageOk, (hvmas.trans hvmas'.symm) ▸ h.leafOk.area,
    hattr, h.leafOk.readable⟩

/-- The page of an image is copied. -/
theorem copied (hback : vma.backing = .elfSegment) :
    Cloned m s (s.cloneUserLeaf parent child vma page leaf env).2 parent child space := by
  have hfile : vma.kind.backing ≠ .fileBacked := by
    show vma.backing ≠ _
    rw [hback]
    nofun
  unfold cloneUserLeaf
  rw [hback]
  rcases halloc : s.allocUserFrame (env.frame page) with _ | ⟨phys, taken⟩
  · exact ⟨.refl, h.forking⟩
  obtain ⟨_, hphys, hmark, rfl⟩ := allocUserFrame_some halloc
  dsimp only
  split
  · rw [freeUserFrame_update hmark s.memory]
    exact ⟨.refl, h.forking⟩
  rcases hfill : fillFrame _ phys (s.memory leaf.frame) with _ | filled
  · rw [freeUserFrame_update hmark s.memory]
    exact ⟨.refl, h.forking⟩
  obtain ⟨_, rfl⟩ := fillFrame_some hfill
  dsimp only
  rcases hmap : mapPageInRoot _ child page phys leaf.attr (env.mapOk page) with _ | mapped
  · exact ⟨h.inv.unclaim hmark _, h.forking.congr rfl⟩
  · obtain ⟨_, _, hnone, rfl⟩ := mapPageInRoot_some hmap
    obtain ⟨ch, hvac⟩ := h.vacant hnone h.leafOk.attr
    exact ⟨.single (.mapFresh hvac hfile hphys hmark),
      Forking.setLeaf (h.forking.congr (t := s.claimFrame phys _) rfl) _ _ _⟩

omit h in
/-- A page that is mapped once its frame has been counted. -/
theorem mapPageInRoot_counted {t mapped : System} {frame : Nat} {ok : Bool} (hcounted : Counted s t)
    (hmap : t.mapPageInRoot child page frame attr ok = some mapped) :
    pageAligned frame ∧ s.leafAt child page = none ∧
      mapped = t.setLeaf child page (some ⟨frame, attr⟩) := by
  obtain ⟨_, haligned, hnone, hmapped⟩ := mapPageInRoot_some hmap
  refine ⟨haligned, ?_, hmapped⟩
  unfold leafAt at hnone ⊢
  rwa [hcounted.spaces] at hnone

/-- The page of a file is shared through the directory. -/
theorem file (hback : vma.backing = .fileBacked) :
    Cloned m s (s.cloneUserLeaf parent child vma page leaf env).2 parent child space := by
  obtain ⟨k, entry, hk, hframe⟩ := cached_entry (h.leafOk.cached.mpr hback)
  unfold cloneUserLeaf sharedReadonlyRetainMappingByFrame
  rw [hback, ← hframe, h.inv.sharedOfFrame_eq hk]
  dsimp only
  rcases hretain : s.sharedReadonlyRetainMapping k entry with _ | retained
  · exact ⟨.refl, h.forking⟩
  have hcounted := retainMapping_counted hk hretain
  dsimp only
  rcases hmap : retained.mapPageInRoot child page entry.framePhys leaf.attr (env.mapOk page) with
    _ | mapped
  · rw [h.inv.dropMapping_retain hk hretain]
    exact ⟨.refl, h.forking⟩
  · obtain ⟨haligned, hnone, rfl⟩ := mapPageInRoot_counted hcounted hmap
    obtain ⟨ch, hvac⟩ := h.vacant hnone h.leafOk.attr
    exact ⟨.single (.mapCached hvac hback hk haligned (h.leafOk.fixed hback) hretain),
      Forking.setLeaf (h.forking.congr hcounted.spaces) _ _ _⟩

/-- A page that cannot be written is shared as it is. -/
theorem readOnly (ok : Bool) (hback : vma.backing ≠ .fileBacked)
    (hro : leaf.attr.writable = false) (hinc : s.frameRefInc leaf.frame = some counted) :
    let result := match counted.mapPageInRoot child page leaf.frame leaf.attr ok with
      | none => (false, counted.frameRefDecAndMaybeFree leaf.frame)
      | some s => (true, s)
    Cloned m s result.2 parent child space := by
  have hcounted := frameRefInc_counted hinc
  cases hmap : counted.mapPageInRoot child page leaf.frame leaf.attr ok with
  | none =>
    rw [frameRefDec_inc (h.inv.refcount_ne_one leaf.frame) hinc]
    exact ⟨.refl, h.forking⟩
  | some =>
    obtain ⟨haligned, hnone, rfl⟩ := mapPageInRoot_counted hcounted hmap
    obtain ⟨ch, hvac⟩ := h.vacant hnone h.leafOk.attr
    exact ⟨.single (.mapShared hvac hback h.at_ (fun hc => hback (h.leafOk.cached.mp hc)) haligned
      hro hro hinc), Forking.setLeaf (h.forking.congr hcounted.spaces) _ _ _⟩

omit h in
/-- The leaves of two roots are written in any order. -/
theorem setLeaf_comm {root' page' : Nat} (hne : root ≠ root') (l l' : Option Leaf) :
    (s.setLeaf root page l).setLeaf root' page' l' =
      (s.setLeaf root' page' l').setLeaf root page l := by
  unfold setLeaf modifySpace
  dsimp only
  rw [update_of_ne hne.symm, update_of_ne hne, update_comm hne]

omit h in
theorem frameRefInc_setLeaf {f : Nat} : (s.setLeaf root page l).frameRefInc f =
      (s.frameRefInc f).map (fun t => t.setLeaf root page l) := by
  unfold frameRefInc setLeaf modifySpace
  split
  · rfl
  · split
    · rfl
    · split <;> rfl

/-- A page that can be written becomes copy-on-write on both sides. -/
theorem writable (ok : Bool) (hne : parent ≠ child)
    (hhold : m.hold parent ≠ .space) (hback : vma.backing ≠ .fileBacked)
    (hw : leaf.attr.writable) (hinc : s.frameRefInc leaf.frame = some counted) :
    let result :=
      match counted.mapPageInRoot child page leaf.frame (cowSharedAttr leaf.attr) ok with
      | none => (false, counted.frameRefDecAndMaybeFree leaf.frame)
      | some s =>
        match s.remapUserPageInRoot parent page leaf.frame (cowSharedAttr leaf.attr) with
        | none => (false, s)
        | some s => (true, s)
    Cloned m s result.2 parent child space := by
  have hcounted := frameRefInc_counted hinc
  cases hmap : counted.mapPageInRoot child page leaf.frame (cowSharedAttr leaf.attr) ok with
  | none =>
    rw [frameRefDec_inc (h.inv.refcount_ne_one leaf.frame) hinc]
    exact ⟨.refl, h.forking⟩
  | some =>
    obtain ⟨haligned, hnone, rfl⟩ := mapPageInRoot_counted hcounted hmap
    dsimp only
    set shared : Option Leaf := some ⟨leaf.frame, cowSharedAttr leaf.attr⟩
    -- The parent still has its leaf, so it can be given the marker.
    have hread :
        (counted.setLeaf child page shared).readUserLeafInRoot parent page = some leaf := by
      have hsame : (counted.setLeaf child page shared).leafAt parent page = some leaf := by
        rw [← h.at_]
        simp only [leafAt, setLeaf, modifySpace, update_of_ne hne, hcounted.spaces]
      have hpu := h.inv.present_user h.parentAt h.at_
      unfold readUserLeafInRoot
      rw [hsame, h.leafOk.pageOk]
      simp [Option.filter, hpu.1, hpu.2]
    have hremap : (counted.setLeaf child page shared).remapUserPageInRoot parent page leaf.frame
        (cowSharedAttr leaf.attr) =
          some ((counted.setLeaf child page shared).setLeaf parent page shared) := by
      unfold remapUserPageInRoot
      exact if_neg (by simp [hread, haligned])
    rw [hremap, setLeaf_comm hne.symm]
    refine ⟨?_, ((h.forking.congr hcounted.spaces).setLeaf _ _ _).setLeaf _ _ _⟩
    have hspLeaf : sp.leaves page = some leaf := (leafAt_eq h.parentAt page).symm.trans h.at_
    have hmark : Effect m s (s.setLeaf parent page shared) := by
      refine h.inv.retag_leaf h.parentAt hspLeaf h.leafOk.area (cowSharedAttr_allowed h.leafOk.attr)
        (fun _ => rfl) (fun _ hbad => by cases hbad) ?_
      cases hmode : m.hold parent with
      | free => exact .inl rfl
      | frames => exact .inr ⟨rfl, hw, rfl⟩
      | space => exact absurd hmode hhold
    refine Effects.andThen h.inv (.single hmark) (fun hinv => .single ?_)
    have hinc' : (s.setLeaf parent page shared).frameRefInc leaf.frame =
        some (counted.setLeaf parent page shared) := by
      rw [frameRefInc_setLeaf, hinc]
      rfl
    obtain ⟨ch, hvac⟩ := h.vacant hnone (cowSharedAttr_allowed h.leafOk.attr)
    have hchild : (s.setLeaf parent page shared).spaces child = some ch := by
      rw [setLeaf_spaces h.parentAt, update_of_ne hne.symm]
      exact hvac.spaceAt
    have hshare := Effect.mapShared (s := s.setLeaf parent page shared) ⟨hvac.free, hchild,
      hvac.noLeaf, hvac.pageOk, hvac.area, hvac.granted, hvac.readable⟩ hback
      (leafSet_setLeaf h.parentAt page _).leafAt_self (fun hc => hback (h.leafOk.cached.mp hc))
      haligned rfl rfl hinc'
    exact hshare

/-- `clone_user_leaf` of a leaf of the parent. -/
theorem effects (env : ForkEnv) (hne : parent ≠ child) (hhold : m.hold parent ≠ .space) :
    Cloned m s (s.cloneUserLeaf parent child vma page leaf env).2 parent child space := by
  cases hback : vma.backing with
  | elfSegment => exact h.copied hback
  | fileBacked => exact h.file hback
  | anonymous | guard =>
    have hfile : vma.backing ≠ .fileBacked := by
      rw [hback]
      nofun
    unfold cloneUserLeaf
    rw [hback]
    rcases hinc : s.frameRefInc leaf.frame with _ | _
    · exact ⟨.refl, h.forking⟩
    cases hw : leaf.attr.writable with
    | true => exact h.writable (env.mapOk page) hne hhold hfile hw hinc
    | false => exact h.readOnly (env.mapOk page) hfile hw hinc

end Cloning

/-- The loop of `clone_user_address_space_cow` over the pages of an area. -/
theorem clonePages_effects {i : Nat} (env : ForkEnv) (hne : parent ≠ child)
    (hfree : m.hold child = .free) (hhold : m.hold parent ≠ .space)
    (hi : space.vmas.entries i = some vma) (pages : List Nat) :
    ∀ s, Inv m s → Forking s parent child space →
      (∀ page ∈ pages, vma.start ≤ page ∧ page < vma.stop) →
      Cloned m s (clonePages parent child vma env pages s).2 parent child space := by
  induction pages with
  | nil =>
    intro s _ hforking _
    exact ⟨.refl, hforking⟩
  | cons page rest ih =>
    intro s h hforking hpages
    have hrest := fun p hp => hpages p (mem_cons_of_mem _ hp)
    obtain ⟨sp, hparent, hvmas⟩ := hforking.parentAt
    unfold clonePages
    rw [h.readUserLeaf_eq hparent]
    cases hat : s.leafAt parent page with
    | none => exact ih s h hforking hrest
    | some leaf =>
      dsimp only
      -- The leaf lies in the area of the loop.
      have hin := hpages page mem_cons_self
      have hok := h.areas parent sp hparent
      have hvma : vmaAt sp.vmas page = some vma := (vmaAt_iff hok).mpr ⟨i, hvmas ▸ hi, hin.1, hin.2⟩
      have hstep := Cloning.effects ⟨h, hforking, hfree, hparent, hat,
        h.leafOk_kind hparent hat (kindAt_of hvma)⟩ env hne hhold
      rcases hclone : s.cloneUserLeaf parent child vma page leaf env with ⟨_ | _, next⟩
      all_goals rw [hclone] at hstep
      · exact hstep
      · have hlater := ih next (hstep.1.inv h) hstep.2 hrest
        exact ⟨hstep.1.trans hlater.1, hlater.2⟩

/-- The loop of `clone_user_address_space_cow` over the areas. -/
theorem cloneAreas_effects (env : ForkEnv) (hne : parent ≠ child) (hfree : m.hold child = .free)
    (hhold : m.hold parent ≠ .space) (areas : List VmaEntry) :
    ∀ s, Inv m s → Forking s parent child space →
      (∀ vma ∈ areas, ∃ i, space.vmas.entries i = some vma ∧ pageAligned vma.start) →
      Effects m s (cloneAreas parent child env areas s).2 := by
  induction areas with
  | nil =>
    intro s _ _ _
    exact .refl
  | cons vma rest ih =>
    intro s h hforking hmem
    have hrest := fun v hv => hmem v (mem_cons_of_mem _ hv)
    obtain ⟨i, hi, haligned⟩ := hmem vma mem_cons_self
    unfold cloneAreas
    split
    · exact ih s h hforking hrest
    have hstep := clonePages_effects env hne hfree hhold hi (pagesIn vma.start vma.stop) s h
      hforking (fun page hpage => by
        have hin := (mem_pagesIn haligned vma.stop page).mp hpage
        exact ⟨hin.1, hin.2.1⟩)
    rcases hclone : clonePages parent child vma env (pagesIn vma.start vma.stop) s with
      ⟨_ | _, next⟩
    all_goals rw [hclone] at hstep
    · exact hstep.1
    · exact hstep.1.trans (ih next (hstep.1.inv h) hstep.2 hrest)

/-- `clone_user_address_space_cow`. -/
theorem cloneUserAddressSpaceCow_effects (env : ForkEnv) (h : Inv m s)
    (hfree : m.hold child = .free) (hhold : m.hold parent ≠ .space)
    (hparent : s.spaces parent = some space) (hchild : s.spaces child = none) :
    Effects m s (s.cloneUserAddressSpaceCow parent child space env).2 := by
  have hok := h.areas parent space hparent
  have hne : parent ≠ child := by
    intro heq
    rw [heq, hchild] at hparent
    cases hparent
  unfold cloneUserAddressSpaceCow
  dsimp only
  rw [retainFileBackedVmas, foldl_retainFile]
  have hnew : Effect m s { s with
      spaces := update s.spaces child (some { space with leaves := fun _ => none })
      fileRefs := fun f => s.fileRefs f + space.vmas.backingFiles.count f } :=
    .newSpace hchild hok (fun _ => rfl) (fun f => by rw [count_backingFiles hok]) hfree
  refine Effects.andThen h (.single hnew) (fun hinv => ?_)
  refine cloneAreas_effects env hne hfree hhold space.vmas.areas _ hinv
    ⟨⟨space, ?_, rfl⟩, ⟨{ space with leaves := fun _ => none }, ?_, rfl⟩⟩ (fun vma hvma => ?_)
  · exact (update_of_ne hne ..).trans hparent
  · exact update_self ..
  · obtain ⟨i, _, hi⟩ := mem_areas.mp hvma
    exact ⟨i, hi, (runtimeVmaAllowed_bounds (hok.allowed i vma hi)).2.1⟩

/-- `fork_current`, with or without success. -/
theorem forkCurrent_effects (env : ForkEnv) (h : Inv m s) (hfree : m.Free child)
    (hhold : m.hold parent ≠ .space) : Effects m s (s.forkCurrent parent child env).2 := by
  unfold forkCurrent
  rcases hparent : s.spaces parent with _ | space
  · exact .refl
  rcases hchild : s.spaces child with _ | other
  · dsimp only
    split
    · exact .refl
    rcases env.refusal with _ | errno
    · have hclone := cloneUserAddressSpaceCow_effects env h hfree.hold hhold hparent hchild
      have hundo : ∀ t, Inv m t → Effects m t (t.destroySpace child) :=
        fun t hinv => (destroySpace_effects hinv hfree).1
      rcases hresult : s.cloneUserAddressSpaceCow parent child space env with ⟨_ | _, copied⟩
      all_goals rw [hresult] at hclone
      · exact Effects.andThen h hclone (hundo copied)
      · rcases env.failure with _ | errno
        · exact hclone
        · exact Effects.andThen h hclone (hundo copied)
    · exact .refl
  · exact .refl

end Fork

end BigOS.Proc
