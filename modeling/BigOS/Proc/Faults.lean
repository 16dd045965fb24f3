/-
  BigOS.Proc.Faults — page faults, as effects.

  A fault maps a page of zeros, a page of a file or a copy of a page that is shared; when
  something on the way fails, what was allocated is given back and at most the bytes of
  a frame without an owner have changed.

  Main results:
    • `mapUserPage_some` — what the mapping of a page has checked,
    • `materializeFileBackedPage_effects`, `cowSplitCurrent_effects`,
      `materializeAnonymousPage_effects` — the three ways,
    • `tryHandleUserPageFault_effects` — all faults,
    • `store_effects` — stores.
-/
import BigOS.Proc.Ledger

namespace BigOS.Proc

open BigOS.Lib BigOS.Mm Function Proc.System Option
open BigOS.Mm.Paging (PageAttr)

variable {page root phys backing : Nat} {vma : VmaEntry} {s t : System} {attr : PageAttr}
  {env : FaultEnv} {key : SharedReadonlyKey}

/-! ## §1. Frames that are taken and given back. -/

section Frames

variable {m : Mode} {bytes : Nat → UInt8} {space : AddressSpace} {kind : VmaEntry}

theorem allocUserFrame_some {offer : Option Nat} (h : s.allocUserFrame offer = some (phys, t)) :
    offer = some phys ∧ pageAligned phys ∧ s.allocated phys = false ∧
      t = { s with allocated := update s.allocated phys true } := by
  unfold allocUserFrame at h
  cases offer with
  | none => cases h
  | some =>
    dsimp only at h
    split at h
    · cases h
    · rename_i hcond
      cases h
      simp only [not_or, Bool.not_eq_true, not_not] at hcond
      exact ⟨rfl, by simpa [pageAligned] using hcond.2.1, hcond.2.2, rfl⟩

theorem fillFrame_some (h : s.fillFrame phys bytes = some t) :
    s.directMapped phys ∧ t = { s with memory := update s.memory phys bytes } := by
  unfold fillFrame at h
  split at h
  · cases h
    exact ⟨by assumption, rfl⟩
  · cases h

/-- A frame that was taken is free again. -/
theorem freeUserFrame_update (hfree : s.allocated phys = false) (memory : Nat → Nat → UInt8) :
    freeUserFrame { s with allocated := update s.allocated phys true, memory := memory } phys =
        { s with memory := memory } := by
  have hback : update s.allocated phys false = s.allocated := update_eq_self_iff.mpr hfree.symm
  unfold freeUserFrame
  simp only [update_idem, hback]

/-- The bytes of a frame that was free. -/
theorem Inv.touch_free (h : Inv m s) (hfree : s.allocated phys = false) (bytes : Nat → UInt8) :
    Effect m s { s with memory := update s.memory phys bytes } := by
  refine .touch (fun _ o f ho => update_of_ne (fun heq => ?_) ..)
  exact h.exact.not_owned hfree o (heq ▸ ho)

/-- A frame that was filled and could not be mapped is free again. -/
theorem Inv.unclaim (h : Inv m s) (hmark : s.allocated phys = false)
    (bytes : Nat → UInt8) : Effects m s ((s.claimFrame phys bytes).freeUserFrame phys) := by
  unfold claimFrame
  rw [freeUserFrame_update hmark]
  exact .single (h.touch_free hmark bytes)

end Frames

/-! ## §2. Mapping a page. -/

/-- A range of one page is allowed by the area at its page. -/
theorem rangeAllowed_page {vmas : VmaCollection} {perm : UInt8}
    (h : internalVmaRangeAllowed vmas page PAGE_SIZE perm)
    (hvma : vmaAt vmas page = some vma) : permissionsInclude vma.permissions perm := by
  unfold internalVmaRangeAllowed at h
  rw [Bool.and_eq_true] at h
  have hrange := h.2
  cases hend : addOverflow page PAGE_SIZE with
  | none => simp [hend] at hrange
  | some stop =>
    have hstop : stop = page + PAGE_SIZE := by
      unfold addOverflow at hend
      split at hend
      · exact (Option.some.inj hend).symm
      · cases hend
    simp only [hend] at hrange
    have hpage : PAGE_SIZE = 4095 + 1 := rfl
    rw [hpage, rangeAllowedFrom, if_neg (by omega), hvma] at hrange
    simp only [Bool.and_eq_true] at hrange
    exact hrange.1.1

theorem Vacant.congr {m : Mode}
    (h : Vacant m s root page space kind attr) (hspaces : t.spaces = s.spaces) :
    Vacant m t root page space kind attr :=
  ⟨h.free, hspaces ▸ h.spaceAt, h.noLeaf, h.pageOk, h.area, h.granted, h.readable⟩

theorem mapPageInRoot_some {ok : Bool} (h : s.mapPageInRoot root page phys attr ok = some t) :
    pageAligned page ∧ pageAligned phys ∧ s.leafAt root page = none ∧
      t = s.setLeaf root page (some ⟨phys, attr⟩) := by
  unfold mapPageInRoot at h
  split at h
  · cases h
  rename_i hcond
  cases h
  simp only [Bool.or_eq_true, not_or, Bool.not_eq_true', Bool.not_eq_false, Bool.not_eq_true,
    isSome_eq_false_iff, isNone_iff_eq_none] at hcond
  exact ⟨hcond.1.1.1, hcond.1.1.2, hcond.2, rfl⟩

/-- What `map_user_page_for_process` has checked when it maps a page. -/
theorem mapUserPage_some {m : Mode} {ok : Bool} (hfree : m.hold root = .free)
    (hspace : s.spaces root = some space) (hvma : vmaAt space.vmas page = some vma)
    (h : s.mapUserPageForProcess root page phys attr ok = some t) :
    Vacant m s root page space vma.kind attr ∧ pageAligned phys ∧
      t = s.setLeaf root page (some ⟨phys, attr⟩) := by
  unfold mapUserPageForProcess at h
  rw [hspace] at h
  dsimp only at h
  split at h
  · cases h
  split at h
  · cases h
  rename_i hread
  rw [hvma] at h
  dsimp only at h
  split at h
  · cases h
  rename_i hcond
  simp only [Bool.or_eq_true, not_or, Bool.not_eq_true', Bool.not_eq_false] at hread hcond
  obtain ⟨hpage, hphys, hnone, rfl⟩ := mapPageInRoot_some h
  rw [leafAt_eq hspace] at hnone
  exact ⟨⟨hfree, hspace, hnone, hpage, kindAt_of hvma, hcond.1,
    fun _ => (rangeAllowed_page hread hvma :)⟩, hphys, rfl⟩

/-! ## §3. Areas in place. -/

section Areas

variable {m : Mode} {u : System} {i : Nat} {space : AddressSpace} {leaf : Leaf}

/-- The areas of a root keep their kinds and their number. -/
def SameKinds (root : Nat) (s t : System) : Prop :=
  ∀ space, s.spaces root = some space → ∃ space', t.spaces root = some space' ∧
    space'.layout = space.layout ∧ space'.vmas.count = space.vmas.count ∧
      ∀ a, kindAt space'.vmas a = kindAt space.vmas a

theorem SameKinds.of_spaces (h : t.spaces = s.spaces) : SameKinds root s t :=
  fun space hspace => ⟨space, h ▸ hspace, rfl, rfl, fun _ => rfl⟩

theorem SameKinds.trans (h1 : SameKinds root s t) (h2 : SameKinds root t u) :
    SameKinds root s u := by
  intro space hspace
  obtain ⟨mid, hmid, hlayout, hcount, hkinds⟩ := h1 space hspace
  obtain ⟨last, hlast, hlayout', hcount', hkinds'⟩ := h2 mid hmid
  exact ⟨last, hlast, hlayout'.trans hlayout, hcount'.trans hcount,
    fun a => (hkinds' a).trans (hkinds a)⟩

/-- Effects that leave the areas of a root their kinds and their number. -/
structure Maps (m : Mode) (root : Nat) (s t : System) : Prop where
  effects : Effects m s t
  kinds : SameKinds root s t

theorem Maps.refl : Maps m root s s := ⟨.refl, .of_spaces rfl⟩

theorem Maps.trans (h1 : Maps m root s t) (h2 : Maps m root t u) : Maps m root s u :=
  ⟨h1.effects.trans h2.effects, h1.kinds.trans h2.kinds⟩

section

variable (hspace : s.spaces root = some space) (f : AddressSpace → AddressSpace)

include hspace f

theorem modifySpace_eq :
    s.modifySpace root f = { s with spaces := update s.spaces root (some (f space)) } := by
  unfold modifySpace
  rw [hspace]
  rfl

theorem modifySpace_root : (s.modifySpace root f).spaces root = some (f space) := by
  rw [modifySpace_eq hspace]
  exact update_self ..

end

/-- The areas change, but not where there are leaves. -/
theorem Inv.retag_areas (h : Inv m s) (hfree : m.hold root = .free)
    (hspace : s.spaces root = some space) {f : AddressSpace → AddressSpace}
    (hlayout : (f space).layout = space.layout) (hleaves : (f space).leaves = space.leaves)
    (hok : VmasOk space.layout (f space).vmas) (hkind : ∀ page leaf, space.leaves page = some leaf →
      kindAt (f space).vmas page = kindAt space.vmas page)
    (hfiles : ∀ i, fileOf (f space).vmas i = fileOf space.vmas i) :
    Effect m s (s.modifySpace root f) := by
  rw [modifySpace_eq hspace]
  refine .retag hspace ⟨?_, fun page => ?_, fun page leaf hleaf => ?_,
    fun _ page leaf leaf' hleaf hleaf' hw => ?_, hfiles⟩ (.inl hfree)
  · rw [hlayout]
    exact hok
  · rw [hleaves]
  · rw [hleaves] at hleaf
    exact LeafOk.congr (h.leaves root space page leaf hspace hleaf) Iff.rfl (hkind page leaf hleaf)
  · rw [hleaves, hleaf] at hleaf'
    cases hleaf'
    exact .inl hw

/-- The areas after the one in a slot was changed. -/
def VmaCollection.edit (vmas : VmaCollection) (i : Nat) (f : VmaEntry → VmaEntry) : VmaCollection :=
  { vmas with entries := update vmas.entries i ((vmas.entries i).map f) }

theorem modifyVma_spaces (hspace : s.spaces root = some space) (f : VmaEntry → VmaEntry) :
    (s.modifyVma root i f).spaces root = some { space with vmas := space.vmas.edit i f } :=
  modifySpace_root hspace _

/-- The watermarks of an area change. -/
theorem Inv.modifyVma (h : Inv m s) (hfree : m.hold root = .free)
    (hspace : s.spaces root = some space) {a b : Nat} {vma : VmaEntry}
    {f : VmaEntry → VmaEntry} (hi : space.vmas.entries i = some vma)
    (hf : f vma = { vma with materializedStart := a, materializedEnd := b })
    (ha : vma.start ≤ a ∧ a ≤ vma.stop) (hb : vma.start ≤ b ∧ b ≤ vma.stop) :
    Maps m root s (s.modifyVma root i f) := by
  have hok := h.areas root space hspace
  have hedited : Edited space.vmas (space.vmas.edit i f) i vma (f vma) := by
    refine ⟨hi, by rw [hf], by rw [hf], by rw [hf]; rfl, ?_, rfl, rfl⟩
    unfold VmaCollection.edit
    rw [hi]
    rfl
  refine ⟨.single (h.retag_areas hfree hspace rfl rfl (hedited.ok hok ?_)
    (fun page _ _ => hedited.kindAt_eq page) (fun j => hedited.fileOf_eq j)), fun sp hsp => ?_⟩
  · rw [hf]
    exact runtimeVmaAllowed_materialized (hok.allowed i vma hi) ha hb
  · cases hspace.symm.trans hsp
    exact ⟨_, modifyVma_spaces hspace f, rfl, rfl, hedited.kindAt_eq⟩

/-- The attributes of one leaf change. -/
theorem Inv.retag_leaf (h : Inv m s) (hspace : s.spaces root = some space)
    (hleaf : space.leaves page = some leaf)
    (hkind : kindAt space.vmas page = some kind) (hattr : internalVmaAttrAllowed kind attr)
    (hfixed : kind.backing = .fileBacked → attr.writable = false)
    (hlone : m.lone → attr.writable → leaf.attr.writable ∨ s.frameRefIsShared leaf.frame = false)
    (hhold : m.hold root = .free ∨ m.hold root = .frames ∧ leaf.attr.writable ∧
      attr = cowSharedAttr leaf.attr) :
    Effect m s (s.setLeaf root page (some ⟨leaf.frame, attr⟩)) := by
  have hset := setLeaf_spaces hspace page (some ⟨leaf.frame, attr⟩)
  have hsame : s.setLeaf root page (some ⟨leaf.frame, attr⟩) =
      { s with spaces := (s.setLeaf root page (some ⟨leaf.frame, attr⟩)).spaces } := rfl
  rw [hsame, hset]
  refine .retag hspace ⟨h.areas root space hspace, fun p => ?_, fun p l hl => ?_,
    fun hm p l l' hl hl' hw => ?_, fun _ => rfl⟩ ?_
  · show (update space.leaves page _ p).map _ = _
    by_cases hp : p = page
    · rw [hp, update_self, hleaf]
      rfl
    · rw [update_of_ne hp]
  · rcases update_some_cases hl with ⟨hp, rfl⟩ | ⟨_, hl⟩
    · have hold := h.leafOk_kind hspace ((leafAt_eq hspace page).trans hleaf) hkind
      rw [hp]
      exact ⟨kind, hold.pageOk, hold.frameOk, hkind, hattr, hold.cached, hfixed, hold.readable⟩
    · exact LeafOk.congr (h.leaves root space p l hspace hl) Iff.rfl rfl
  · rcases update_some_cases hl' with ⟨hp, rfl⟩ | ⟨_, hl''⟩
    · rw [hp, hleaf] at hl
      cases hl
      exact hlone hm hw
    · rw [hl''] at hl
      cases hl
      exact .inl hw
  · rcases hhold with hf | ⟨hframes, hw, hcow⟩
    · exact .inl hf
    refine .inr ⟨hframes, rfl, rfl, rfl, fun p => ?_⟩
    show update space.leaves page _ p = _ ∨ _
    by_cases hp : p = page
    · refine .inr ⟨leaf, hp ▸ hleaf, hw, ?_⟩
      show update space.leaves page _ p = _
      rw [hp, update_self, hcow]
    · exact .inl (update_of_ne hp ..)

end Areas

/-! ## §4. Pages of files. -/

section Files

variable {m : Mode} {u : System} {i k : Nat} {space : AddressSpace}

/-- The watermark follows a page of its area. -/
theorem raiseMaterializedEnd_eq (hok : VmasOk space.layout space.vmas)
    (hi : space.vmas.entries i = some vma) (hhi : page < vma.stop)
    (hpage : pageAligned page) (hguard : vma.backing ≠ .guard) :
    ∃ b, raiseMaterializedEnd page vma = { vma with materializedEnd := b } ∧ vma.start ≤ b ∧
      b ≤ vma.stop := by
  have hallowed := hok.allowed i vma hi
  have hbounds := runtimeVmaAllowed_bounds hallowed
  have hinside := runtimeVmaAllowed_inside hallowed hguard
  have hstop := hbounds.2.2.1
  unfold raiseMaterializedEnd
  split
  · rename_i hraise
    refine ⟨page + PAGE_SIZE, rfl, by omega, ?_⟩
    have hsize : PAGE_SIZE = 4096 := rfl
    simp only [pageAligned, beq_iff_eq, hsize] at hpage hstop ⊢
    omega
  · exact ⟨vma.materializedEnd, rfl, hinside.2.1, hinside.2.2⟩

/-- A mapping that was retained for nothing. -/
theorem Inv.dropMapping_retain {entry : SharedReadonlyPage} (h : Inv m s)
    (hk : s.shared k = some entry) (hretain : s.sharedReadonlyRetainMapping k entry = some t) :
    t.sharedReadonlyDropMapping entry.framePhys = s := by
  obtain ⟨htracked, rfl⟩ := retainMapping_some hretain
  have hone := h.refcount_ne_one entry.framePhys
  -- The entry is the only one with its frame, with the mapping retained as before.
  have hfind : sharedOfFrame { s with
      refcount := update s.refcount entry.framePhys (RefCount.inc (s.refcount entry.framePhys))
      shared := update s.shared k (some { entry with pteRefs := entry.pteRefs + 1 }) }
      entry.framePhys = some (k, { entry with pteRefs := entry.pteRefs + 1 }) := by
    unfold sharedOfFrame
    rw [Inv.findShared_unique (s := { s with refcount := _, shared := _ })
      (e := { entry with pteRefs := entry.pteRefs + 1 }) (update_self ..)
      (h.entries k entry hk).bound (fun j other hj hframe => ?_)]
    · simp [update_self]
    · rcases update_some_cases hj with ⟨rfl, _⟩ | ⟨_, hj⟩
      · rfl
      · have hown : s.owner (.cache k) = some other.framePhys := by rw [owner_cache hk, hframe]
        exact h.distinct j k _ (owner_cache hj) hown
  unfold sharedReadonlyDropMapping
  rw [hfind]
  have hpos := (h.entries k entry hk).mapped
  dsimp only
  rw [if_neg (by omega)]
  have hinc : frameRefInc s entry.framePhys = some { s with
      refcount := update s.refcount entry.framePhys
        (RefCount.inc (s.refcount entry.framePhys)) } := by
    unfold sharedReadonlyRetainMapping at hretain
    rw [map_eq_some_iff] at hretain
    obtain ⟨counted, hcounted, _⟩ := hretain
    rw [hcounted, (frameRefInc_some hcounted).2]
  have hdec := frameRefDec_inc hone hinc
  have hshared : update (update s.shared k (some { entry with pteRefs := entry.pteRefs + 1 })) k
      (some { entry with pteRefs := entry.pteRefs + 1 - 1 }) = s.shared := by
    rw [update_idem, Nat.add_sub_cancel]
    exact update_eq_self_iff.mpr hk.symm
  unfold setShared
  rw [hshared]
  exact hdec

/-- A page in an area of a root that no call holds. -/
structure Faulting (m : Mode) (s : System) (root page i : Nat) (space : AddressSpace)
    (vma : VmaEntry) : Prop where
  inv : Inv m s
  free : m.hold root = .free
  spaceAt : s.spaces root = some space
  entry : space.vmas.entries i = some vma
  lo : vma.start ≤ page
  hi : page < vma.stop

section

variable (h : Faulting m s root page i space vma)

include h

theorem Faulting.vmaAt : vmaAt space.vmas page = some vma :=
  (vmaAt_iff (h.inv.areas root space h.spaceAt)).mpr ⟨i, h.entry, h.lo, h.hi⟩

/-- A page of a file was mapped, and the watermark of its area follows. -/
theorem raised_effects {l : Leaf} (hspace' : t.spaces root = some space) (hpage : pageAligned page)
    (hback : vma.backing = .fileBacked) (hmap : Effect m s (t.setLeaf root page (some l))) :
    let raised := (t.setLeaf root page (some l)).modifyVma root i (raiseMaterializedEnd page)
    Maps m root s raised := by
  have hguard : vma.backing ≠ .guard := by
    rw [hback]
    nofun
  have hroot := setLeaf_root hspace' page (some l)
  have hset : Maps m root s (t.setLeaf root page (some l)) := by
    refine ⟨.single hmap, fun sp hsp => ?_⟩
    cases h.spaceAt.symm.trans hsp
    exact ⟨_, hroot, rfl, rfl, fun _ => rfl⟩
  have hok := h.inv.areas root space h.spaceAt
  obtain ⟨b, heq, hb⟩ := raiseMaterializedEnd_eq hok h.entry h.hi hpage hguard
  have hinside := runtimeVmaAllowed_inside (hok.allowed i vma h.entry) hguard
  exact hset.trans ((hset.effects.inv h.inv).modifyVma h.free hroot h.entry heq hinside.1 hb)

theorem mapFoundPage_effects {entry : SharedReadonlyPage}
    (hback : vma.backing = .fileBacked) (hk : s.shared k = some entry)
    (hro : attr.writable = false) :
    Maps m root s (s.mapFoundPage root page i k entry attr env).2 := by
  unfold mapFoundPage
  rcases hretain : s.sharedReadonlyRetainMapping k entry with _ | retained
  · exact .refl
  have hcounted := retainMapping_counted hk hretain
  dsimp only
  rcases hmap : retained.mapUserPageForProcess root page entry.framePhys attr env.mapOk with
    _ | mapped
  · rw [h.inv.dropMapping_retain hk hretain]
    exact .refl
  have hspace' : retained.spaces root = some space := by rw [hcounted.spaces, h.spaceAt]
  obtain ⟨hvac, hframe, rfl⟩ := mapUserPage_some h.free hspace' h.vmaAt hmap
  have hmapCached : Effect m s (retained.setLeaf root page (some ⟨entry.framePhys, attr⟩)) :=
    .mapCached (hvac.congr hcounted.spaces.symm) hback hk hframe hro hretain
  exact raised_effects h hspace' hvac.pageOk hback hmapCached

end

section

variable (h : Inv m s) (hfree : s.allocated phys = false) (bytes : Nat → UInt8)
  (hpublish : (s.claimFrame phys bytes).sharedReadonlyPublishNew key phys backing = some (k, t))

include h hfree bytes hpublish

/-- What a page that is published takes was free. -/
theorem Inv.published_free : s.refcount phys = 0 ∧ update s.shared k none = s.shared ∧
    update s.allocated phys false = s.allocated := by
  obtain ⟨hslot, _, _⟩ := publishNew_some hpublish
  refine ⟨?_, update_eq_self_iff.mpr hslot.symm, update_eq_self_iff.mpr hfree.symm⟩
  rw [h.exact.stored, h.exact.count_of_not_owned (h.exact.not_owned hfree)]
  rfl

/-- The bytes of a page were read, and the directory had no use for them. -/
theorem Inv.cancel_published : t.sharedReadonlyCancelUnmapped k phys backing =
      { s with memory := update s.memory phys bytes } := by
  obtain ⟨hzero, hshared, hmarks⟩ := h.published_free hfree bytes hpublish
  obtain ⟨hslot, _, rfl⟩ := publishNew_some hpublish
  have hdec : frameRefDecAndMaybeFree ((((s.claimFrame phys bytes).retainFile
      backing).setShared k (some ⟨key, phys, 0, backing⟩)).setShared k none) phys =
      freeUserFrame ((((s.claimFrame phys bytes).retainFile
        backing).setShared k (some ⟨key, phys, 0, backing⟩)).setShared k none) phys := by
    unfold frameRefDecAndMaybeFree
    exact if_pos (by simp [setShared, retainFile, claimFrame, hzero])
  unfold sharedReadonlyCancelUnmapped
  rw [hdec]
  unfold freeUserFrame releaseFile setShared retainFile claimFrame
  simp [hshared, hmarks]

/-- The page is in the directory, and was not mapped. -/
theorem Inv.dropMapping_published
    (hretain : t.sharedReadonlyRetainMapping k ⟨key, phys, 0, backing⟩ = some u) :
    u.sharedReadonlyDropMapping phys = { s with memory := update s.memory phys bytes } := by
  obtain ⟨hzero, hshared, hmarks⟩ := h.published_free hfree bytes hpublish
  obtain ⟨_, hbound, rfl⟩ := publishNew_some hpublish
  obtain ⟨htracked, rfl⟩ := retainMapping_some hretain
  have hcount : update s.refcount phys 0 = s.refcount := update_eq_self_iff.mpr hzero.symm
  have hfind := Inv.findShared_unique (e := ⟨key, phys, 1, backing⟩)
    (s := { s with shared := update s.shared k (some ⟨key, phys, 1, backing⟩) })
    (update_self ..) hbound (fun j other hj hframe => by
      rcases update_some_cases hj with ⟨rfl, _⟩ | ⟨_, hj⟩
      · rfl
      · exact absurd (owner_cache hj) (hframe ▸ h.exact.not_owned hfree _))
  unfold findShared at hfind
  have htracked' : s.tracked phys := htracked
  unfold sharedReadonlyDropMapping sharedOfFrame findShared
  simp only [setShared, retainFile, claimFrame, update_idem,
    hfind, update_self, bind_some, map_some, hzero,
    frameRefDecAndMaybeFree, htracked', RefCount.inc]
  simp [freeUserFrame, releaseFile, update_idem, hshared, hmarks, hcount, hzero]

end

theorem mapNewPage_effects (h : Faulting m s root page i space vma)
    (hback : vma.backing = .fileBacked) (hro : attr.writable = false) :
    Maps m root s (s.mapNewPage root page i key attr backing env).2 := by
  unfold mapNewPage
  rcases halloc : s.allocUserFrame env.frame with _ | ⟨phys, taken⟩
  · exact .refl
  obtain ⟨_, hphys, hmark, rfl⟩ := allocUserFrame_some halloc
  dsimp only
  rcases hfill : env.content.bind (fillFrame _ phys) with _ | filled
  · rw [freeUserFrame_update hmark s.memory]
    exact .refl
  rw [bind_eq_some_iff] at hfill
  obtain ⟨bytes, _, hfilled⟩ := hfill
  obtain ⟨_, rfl⟩ := fillFrame_some hfilled
  have htouch := h.inv.touch_free hmark bytes
  dsimp only
  rcases hpublish : sharedReadonlyPublishNew _ key phys backing with _ | ⟨k, published⟩
  · exact ⟨h.inv.unclaim hmark bytes, .of_spaces rfl⟩
  dsimp only
  have hpub : (s.claimFrame phys bytes).sharedReadonlyPublishNew key phys backing =
    some (k, published) := hpublish
  rcases hretain : published.sharedReadonlyRetainMapping k ⟨key, phys, 0, backing⟩ with
    _ | retained
  · rw [h.inv.cancel_published hmark bytes hpub]
    exact ⟨.single htouch, .of_spaces rfl⟩
  dsimp only
  have hspace' : retained.spaces root = some space := by
    obtain ⟨_, _, rfl⟩ := publishNew_some hpub
    obtain ⟨_, rfl⟩ := retainMapping_some hretain
    exact h.spaceAt
  rcases hmap : retained.mapUserPageForProcess root page phys attr env.mapOk with _ | mapped
  · rw [h.inv.dropMapping_published hmark bytes hpub hretain]
    exact ⟨.single htouch, .of_spaces rfl⟩
  obtain ⟨hvac, hframe, rfl⟩ := mapUserPage_some h.free hspace' h.vmaAt hmap
  have hnew : Effect m s (retained.setLeaf root page (some ⟨phys, attr⟩)) :=
    .mapNew ⟨h.free, h.spaceAt, hvac.noLeaf, hvac.pageOk, hvac.area, hvac.granted, hvac.readable⟩
      hback hphys hmark hro hpub hretain
  exact raised_effects h hspace' hvac.pageOk hback hnew

/-- `materialize_file_backed_page` of the area that a page lies in. -/
theorem materializeFileBackedPage_effects (env : FaultEnv)
    (h : Faulting m s root page i space vma) :
    Maps m root s (s.materializeFileBackedPage root page i vma env).2 := by
  unfold materializeFileBackedPage
  rcases vma.fileBacking with _ | backing
  · exact .refl
  dsimp only
  split
  · exact .refl
  rename_i hcond
  have hback : vma.backing = .fileBacked := by
    simp only [Bool.or_eq_true, not_or, bne_iff_ne, ne_eq, not_not] at hcond
    exact hcond.1
  rcases addOverflow vma.fileOffset (page - vma.start) with _ | fileOffset
  · exact .refl
  dsimp only
  rcases sharedReadonlyKeyForVma vma fileOffset (fileBackedPageAttr vma.permissions)
      env.identity with _ | key
  · exact .refl
  dsimp only
  rcases hfound : (s.sharedReadonlyFind key).bind fun k =>
      (s.shared k).map fun entry => (k, entry) with _ | ⟨k, entry⟩
  · exact mapNewPage_effects h hback rfl
  have hk : s.shared k = some entry := by
    rw [bind_eq_some_iff] at hfound
    obtain ⟨j, _, hj⟩ := hfound
    rw [map_eq_some_iff] at hj
    obtain ⟨e, he, heq⟩ := hj
    cases heq
    exact he
  exact mapFoundPage_effects h hback hk rfl

end Files

/-! ## §5. Pages that are shared. -/

section Cow

variable {m : Mode} {i f : Nat} {space : AddressSpace}

theorem remapUserPage_some (h : s.remapUserPageInRoot root page phys attr = some t) :
    t = s.setLeaf root page (some ⟨phys, attr⟩) := by
  unfold remapUserPageInRoot at h
  split at h
  · cases h
  · exact (Option.some.inj h).symm

/-- The new leaf of a split page replaces the old one, which then gives up its frame. -/
theorem setLeaf_setLeaf (l l' : Option Leaf) :
    (s.setLeaf root page l).setLeaf root page l' = s.setLeaf root page l' := by
  unfold setLeaf modifySpace
  cases hspace : s.spaces root with
  | none => simp [update_idem]
  | some => simp [update_idem]

/-- A frame that is shared is not freed by one of its owners. -/
theorem frameRefDec_shared (hshared : s.frameRefIsShared f) : s.frameRefDecAndMaybeFree f = { s with
      refcount := update s.refcount f
        (if s.refcount f - 1 = 1 then 0 else s.refcount f - 1) } := by
  unfold frameRefIsShared at hshared
  rw [Bool.and_eq_true] at hshared
  have htwo : 2 ≤ s.refcount f := of_decide_eq_true hshared.2
  unfold frameRefDecAndMaybeFree
  rw [if_neg]
  simp only [Bool.or_eq_true, not_or, Bool.not_eq_true', Bool.not_eq_false, beq_iff_eq]
  exact ⟨hshared.1, by omega⟩

/-- The two orders in which a split page can change its frame. -/
theorem split_eq (hshared : s.frameRefIsShared f) :
    ((s.claimFrame phys bytes).setLeaf root page (some leaf)).frameRefDecAndMaybeFree f =
      ((((s.setLeaf root page none).frameRefDecAndMaybeFree f).claimFrame phys bytes).setLeaf
        root page (some leaf)) := by
  rw [frameRefDec_shared (s := (s.claimFrame phys bytes).setLeaf root page (some leaf)) hshared,
    frameRefDec_shared (s := s.setLeaf root page none) hshared]
  have hidem : ((s.setLeaf root page none).setLeaf root page (some leaf)).spaces =
      (s.setLeaf root page (some leaf)).spaces := by rw [setLeaf_setLeaf]
  unfold setLeaf modifySpace at hidem ⊢
  unfold claimFrame
  simp only [mk.injEq, and_true]
  exact hidem.symm

/-- `cow_split_current` of a page in an anonymous area. -/
theorem cowSplitCurrent_effects (hfault : Faulting m s root page i space vma)
    (hback : vma.backing = .anonymous) :
    Effects m s (s.cowSplitCurrent root page space vma env).2 := by
  have hkind : kindAt space.vmas page = some vma.kind := kindAt_of hfault.vmaAt
  obtain ⟨h, hfree, hspace, -, -, -⟩ := hfault
  have hfile : vma.kind.backing ≠ .fileBacked := by
    show vma.backing ≠ _
    rw [hback]
    nofun
  unfold cowSplitCurrent
  rw [h.readUserLeaf_eq hspace]
  rcases hat : s.leafAt root page with _ | old
  · exact .refl
  have hleaf : space.leaves page = some old := (leafAt_eq hspace page).symm.trans hat
  have hold := h.leafOk_kind hspace hat hkind
  dsimp only
  split
  · exact .refl
  rename_i hcond
  simp only [Bool.or_eq_true, not_or, Bool.not_eq_true', Bool.not_eq_false] at hcond
  set attr : PageAttr := { old.attr with cow := false, writable := true }
  split
  · rename_i hlone
    have hnot : s.frameRefIsShared old.frame = false := by simpa using hlone
    rcases hremap : s.remapUserPageInRoot root page old.frame attr with _ | remapped
    · exact .refl
    rw [remapUserPage_some hremap]
    exact .single (h.retag_leaf hspace hleaf hkind hcond.2
      (fun hb => absurd hb hfile) (fun _ _ => .inr hnot) (.inl hfree))
  rename_i hmany
  have hshared : s.frameRefIsShared old.frame := by simpa using hmany
  rcases halloc : s.allocUserFrame env.frame with _ | ⟨phys, taken⟩
  · exact .refl
  obtain ⟨_, hphys, hmark, rfl⟩ := allocUserFrame_some halloc
  dsimp only
  split
  · rw [freeUserFrame_update hmark s.memory]
  rcases hfill : fillFrame _ phys (s.memory old.frame) with _ | filled
  · rw [freeUserFrame_update hmark s.memory]
  obtain ⟨_, rfl⟩ := fillFrame_some hfill
  dsimp only
  rcases hremap : remapUserPageInRoot _ root page phys attr with _ | remapped
  · exact h.unclaim hmark _
  rw [remapUserPage_some hremap]
  refine .single ?_
  show Effect m s (((s.claimFrame phys (s.memory old.frame)).setLeaf root page
    (some ⟨phys, attr⟩)).frameRefDecAndMaybeFree old.frame)
  rw [split_eq hshared]
  have hdrop := frameRefDec_shared (s := s.setLeaf root page none) hshared
  have hvac : Vacant m ((s.setLeaf root page none).frameRefDecAndMaybeFree old.frame) root page
      { space with leaves := update space.leaves page none } vma.kind attr := by
    refine ⟨hfree, ?_, update_self .., hold.pageOk, hkind, hcond.2, hold.readable⟩
    rw [hdrop]
    exact setLeaf_root hspace page none
  refine .split hat (fun hc => hfile (hold.cached.mp hc)) hvac hfile hphys ?_
  rw [hdrop]
  exact hmark

end Cow

/-! ## §6. Pages of zeros, and all faults. -/

section Fault

variable {m : Mode} {i : Nat} {space : AddressSpace}

/-- The page of an address. -/
theorem pageAligned_pageDown (addr : Nat) : pageAligned (pageDown addr) := by
  unfold pageAligned pageDown
  rw [Nat.mul_mod_left]
  rfl

/-- The end of a not-present fault in an anonymous area. -/
theorem materializeAnonymousPage_effects (hfault : Faulting m s root page i space vma)
    (hback : vma.backing = .anonymous) :
    Effects m s (s.materializeAnonymousPage root page i vma env).2 := by
  have hvma := hfault.vmaAt
  obtain ⟨h, hfree, hspace, hi, hlo, hhi⟩ := hfault
  have hok := h.areas root space hspace
  have hguard : vma.backing ≠ .guard := by
    rw [hback]
    nofun
  have hfile : vma.kind.backing ≠ .fileBacked := by
    show vma.backing ≠ _
    rw [hback]
    nofun
  unfold materializeAnonymousPage
  rcases halloc : s.allocUserFrame env.frame with _ | ⟨phys, taken⟩
  · exact .refl
  obtain ⟨_, hphys, hmark, rfl⟩ := allocUserFrame_some halloc
  dsimp only
  rcases hfill : fillFrame _ phys (fun _ => 0) with _ | filled
  · rw [freeUserFrame_update hmark s.memory]
  obtain ⟨_, rfl⟩ := fillFrame_some hfill
  dsimp only
  rcases hmap : mapUserPageForProcess _ root page phys (anonymousPageAttr vma.permissions)
      env.mapOk with _ | mapped
  · exact h.unclaim hmark _
  have hspace' : (s.claimFrame phys (fun _ => 0)).spaces root = some space := hspace
  obtain ⟨hvac, hframe, rfl⟩ := mapUserPage_some hfree hspace' hvma hmap
  have hnew : Effect m s ((s.claimFrame phys (fun _ => 0)).setLeaf root page
      (some ⟨phys, anonymousPageAttr vma.permissions⟩)) :=
    .mapFresh (hvac.congr rfl) hfile hphys hmark
  refine Effects.andThen h (.single hnew) (fun hinv => ?_)
  have hroot := setLeaf_root hspace' page (some ⟨phys, anonymousPageAttr vma.permissions⟩)
  have hinside := runtimeVmaAllowed_inside (hok.allowed i vma hi) hguard
  by_cases hdown : vma.growth = .down
  · -- The area of the stack follows its lowest page.
    exact (hinv.modifyVma hfree hroot hi (f := materialized page)
      (by simp [materialized, hdown]) ⟨hlo, Nat.le_of_lt hhi⟩ hinside.2).effects
  · obtain ⟨b, heq, hb⟩ := raiseMaterializedEnd_eq hok hi hhi hvac.pageOk hguard
    exact (hinv.modifyVma hfree hroot hi (f := materialized page)
      (by simp [materialized, hdown, heq]) hinside.1 hb).effects

/-- Every page fault is a sequence of effects. -/
theorem tryHandleUserPageFault_effects (h : Inv m s) (hfree : m.hold root = .free)
    (addr code : Nat) (env : FaultEnv) :
    Effects m s (s.tryHandleUserPageFault root addr code env).2 := by
  unfold tryHandleUserPageFault
  rcases hspace : s.spaces root with _ | space
  · exact .refl
  dsimp only
  split
  · exact .refl
  rcases hfind : internalFindVma space.vmas (pageDown addr) with _ | i
  · exact .refl
  dsimp only
  obtain ⟨_, _, vma, hi, hlo, hhi⟩ := internalFindVma_some hfind
  have hfault : Faulting m s root (pageDown addr) i space vma := ⟨h, hfree, hspace, hi, hlo, hhi⟩
  rw [hi]
  dsimp only
  split
  · -- The page is present: only a write to a shared page goes on.
    split
    · exact .refl
    split
    · exact .refl
    rename_i hcond
    have hback : vma.backing = .anonymous := by
      simp only [Bool.or_eq_true, not_or, bne_iff_ne, ne_eq, not_not] at hcond
      exact hcond.1.1
    split
    · exact .refl
    split
    · exact .refl
    exact cowSplitCurrent_effects hfault hback
  split
  · exact .refl
  split
  · split
    · exact .refl
    split
    · exact .refl
    split
    · exact .refl
    exact (materializeFileBackedPage_effects env hfault).effects
  split
  · exact .refl
  rename_i hback
  split
  · exact .refl
  split
  · exact .refl
  split
  · exact .refl
  exact materializeAnonymousPage_effects hfault (by simpa using hback)

/-- A store changes bytes only. -/
theorem store_effects (hquiet : m.quiet = false) (addr : Nat) (byte : UInt8) :
    Effects m s (s.store root addr byte) := by
  have hloud : m.quiet → False := by
    intro hq
    rw [hquiet] at hq
    cases hq
  unfold store
  split
  · exact .refl
  split
  · exact .refl
  split
  · exact .single (.touch (fun hq => (hloud hq).elim))
  exact .refl

end Fault

end BigOS.Proc
