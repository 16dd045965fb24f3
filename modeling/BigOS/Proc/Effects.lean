/-
  BigOS.Proc.Effects — what operations do to user memory.

  Every operation is a sequence of a few effects: a page is mapped to a frame of its own,
  to a frame of another leaf or to a page of the directory; a leaf goes; the areas and the
  attributes of a space change while the frames stay; a space comes or goes.  The
  invariant is kept by each effect, and so by every operation.  A mode says which effects
  an operation does not have.

  Main results:
    • `Effect` — the effects, with what the operations have checked,
    • `Effect.inv` — each of them keeps the invariant.
-/
import BigOS.Proc.Owners

namespace BigOS.Proc

open BigOS.Lib BigOS.Mm Function Option RefCount Proc.System SharedReadonlyPage Owner
open BigOS.Mm.Paging (PageAttr)

variable {m : Mode} {s t : System} {space space' : AddressSpace}
  {page root f k backing i file : Nat}
  {kind : VmaEntry} {attr : PageAttr} {entry : SharedReadonlyPage} {vmas vmas' : VmaCollection}

/-! ## §1. The effects. -/

/-- A free frame is taken and filled. -/
def System.claimFrame (s : System) (f : Nat) (bytes : Nat → UInt8) : System :=
  { s with
    allocated := update s.allocated f true
    memory := update s.memory f bytes }

/-- A page without a leaf, of a kind that grants what a new leaf is to have. -/
structure Vacant (m : Mode) (s : System) (root page : Nat) (space : AddressSpace)
    (kind : VmaEntry) (attr : PageAttr) : Prop where
  free : m.hold root = .free
  spaceAt : s.spaces root = some space
  noLeaf : space.leaves page = none
  pageOk : pageAligned page
  area : kindAt space.vmas page = some kind
  granted : internalVmaAttrAllowed kind attr
  readable : m.readable → permissionsInclude kind.permissions VmaPermission.Read

/-- A space whose leaves have the frames that they had. -/
structure Retags (m : Mode) (s : System) (space space' : AddressSpace) : Prop where
  ok : VmasOk space'.layout space'.vmas
  frames : ∀ page, (space'.leaves page).map Leaf.frame = (space.leaves page).map Leaf.frame
  leaves : ∀ page leaf, space'.leaves page = some leaf → ∃ kind, LeafOk m s space' page leaf kind
  lone : m.lone → ∀ page leaf leaf', space.leaves page = some leaf →
    space'.leaves page = some leaf' → leaf'.attr.writable →
      leaf.attr.writable ∨ s.frameRefIsShared leaf.frame = false
  files : ∀ i, fileOf space'.vmas i = fileOf space.vmas i

/-- A space of which some pages have become copy-on-write. -/
structure Demotes (space space' : AddressSpace) : Prop where
  layout : space'.layout = space.layout
  vmas : space'.vmas = space.vmas
  running : space'.running = space.running
  leaves : ∀ page, space'.leaves page = space.leaves page ∨
    ∃ leaf, space.leaves page = some leaf ∧ leaf.attr.writable ∧
      space'.leaves page = some ⟨leaf.frame, cowSharedAttr leaf.attr⟩

inductive Effect (m : Mode) : System → System → Prop where
  /-- A page gets a frame that was free. -/
  | mapFresh {s : System} {root page phys : Nat} {attr : PageAttr} {bytes : Nat → UInt8}
      {space : AddressSpace} {kind : VmaEntry} (hvac : Vacant m s root page space kind attr)
      (hback : kind.backing ≠ .fileBacked) (hphys : pageAligned phys)
      (hfree : s.allocated phys = false) :
      Effect m s ((s.claimFrame phys bytes).setLeaf root page (some ⟨phys, attr⟩))
  /-- A page gets the frame of a leaf that is not writable. -/
  | mapShared {s t : System} {root page root' page' : Nat} {attr : PageAttr} {leaf : Leaf}
      {space : AddressSpace} {kind : VmaEntry} (hvac : Vacant m s root page space kind attr)
      (hback : kind.backing ≠ .fileBacked) (hleaf : s.leafAt root' page' = some leaf)
      (hcached : ¬s.Cached leaf.frame) (hframe : pageAligned leaf.frame)
      (hro : leaf.attr.writable = false) (hro' : attr.writable = false)
      (hinc : s.frameRefInc leaf.frame = some t) :
      Effect m s (t.setLeaf root page (some ⟨leaf.frame, attr⟩))
  /-- A page gets a frame of the directory. -/
  | mapCached {s t : System} {root page k : Nat} {attr : PageAttr} {entry : SharedReadonlyPage}
      {space : AddressSpace} {kind : VmaEntry} (hvac : Vacant m s root page space kind attr)
      (hback : kind.backing = .fileBacked) (hk : s.shared k = some entry)
      (hframe : pageAligned entry.framePhys) (hro : attr.writable = false)
      (hretain : s.sharedReadonlyRetainMapping k entry = some t) :
      Effect m s (t.setLeaf root page (some ⟨entry.framePhys, attr⟩))
  /-- A page gets a frame that was free, which enters the directory. -/
  | mapNew {s t u : System} {root page k phys backing : Nat} {attr : PageAttr}
      {bytes : Nat → UInt8} {key : SharedReadonlyKey} {space : AddressSpace} {kind : VmaEntry}
      (hvac : Vacant m s root page space kind attr) (hback : kind.backing = .fileBacked)
      (hphys : pageAligned phys) (hfree : s.allocated phys = false)
      (hro : attr.writable = false)
      (hpublish : (s.claimFrame phys bytes).sharedReadonlyPublishNew key phys backing = some (k, t))
      (hretain : t.sharedReadonlyRetainMapping k ⟨key, phys, 0, backing⟩ = some u) :
      Effect m s (u.setLeaf root page (some ⟨phys, attr⟩))
  /-- A leaf goes whose frame is not in the directory. -/
  | drop {s : System} {root page : Nat} {leaf : Leaf} (hleaf : s.leafAt root page = some leaf)
      (hcached : ¬s.Cached leaf.frame) (hkeeps : m.keeps root page = false)
      (hhold : m.hold root = .free) :
      Effect m s ((s.setLeaf root page none).frameRefDecAndMaybeFree leaf.frame)
  /-- A leaf goes whose frame is in the directory. -/
  | dropCached {s : System} {root page : Nat} {leaf : Leaf}
      (hleaf : s.leafAt root page = some leaf) (hcached : s.Cached leaf.frame)
      (hkeeps : m.keeps root page = false) (hhold : m.hold root = .free) :
      Effect m s ((s.setLeaf root page none).sharedReadonlyDropMapping leaf.frame)
  /-- A page gets a copy of its frame. -/
  | split {s : System} {root page phys : Nat} {attr : PageAttr} {leaf : Leaf}
      {space : AddressSpace} {kind : VmaEntry} (hleaf : s.leafAt root page = some leaf)
      (hcached : ¬s.Cached leaf.frame)
      (hvac : Vacant m ((s.setLeaf root page none).frameRefDecAndMaybeFree leaf.frame) root page
        space kind attr)
      (hback : kind.backing ≠ .fileBacked) (hphys : pageAligned phys)
      (hfree : ((s.setLeaf root page none).frameRefDecAndMaybeFree leaf.frame).allocated phys =
        false) :
      Effect m s ((((s.setLeaf root page none).frameRefDecAndMaybeFree leaf.frame).claimFrame phys
        (s.memory leaf.frame)).setLeaf root page (some ⟨phys, attr⟩))
  /-- The areas or the attributes of a space change. -/
  | retag {s : System} {root : Nat} {space space' : AddressSpace}
      (hspace : s.spaces root = some space) (hretags : Retags m s space space')
      (hhold : m.hold root = .free ∨ m.hold root = .frames ∧ Demotes space space') :
      Effect m s { s with spaces := update s.spaces root (some space') }
  /-- An area that a file backs is added. -/
  | openArea {s : System} {root i file : Nat} {space : AddressSpace} {entry : VmaEntry}
      {vmas vmas' : VmaCollection} (hspace : s.spaces root = some space)
      (hadded : Added space.vmas vmas i entry)
      (hallowed : runtimeVmaAllowed space.layout entry)
      (hback : entry.backing = .fileBacked) (hfile : entry.fileBacking = some file)
      (hentries : vmas'.entries = vmas.entries) (hcount : vmas'.count = vmas.count)
      (hcursor : vmas'.anonNext = vmas.anonNext) (hhold : m.hold root = .free) :
      Effect m s { s.retainFile file with
        spaces := update s.spaces root (some { space with vmas := vmas' }) }
  /-- A space without leaves comes, with the references of its areas. -/
  | newSpace {s : System} {root : Nat} {space : AddressSpace} {refs : Nat → Nat}
      (hroot : s.spaces root = none) (hok : VmasOk space.layout space.vmas)
      (hleaves : ∀ page, space.leaves page = none)
      (hrefs : ∀ f, refs f = s.fileRefs f + count (fileOf space.vmas) f)
      (hhold : m.hold root = .free) :
      Effect m s { s with
        spaces := update s.spaces root (some space)
        fileRefs := refs }
  /-- A space without leaves goes, with the references of its areas. -/
  | removeSpace {s : System} {root : Nat} {space : AddressSpace} {refs : Nat → Nat}
      (hroot : s.spaces root = some space) (hleaves : ∀ page, space.leaves page = none)
      (hrefs : ∀ f, refs f = s.fileRefs f - count (fileOf space.vmas) f)
      (hhold : m.hold root = .free) :
      Effect m s { s with
        spaces := update s.spaces root none
        fileRefs := refs }
  /-- The bytes of frames change. -/
  | touch {s : System} {memory : Nat → Nat → UInt8}
      (hquiet : m.quiet → ∀ o f, s.owner o = some f → memory f = s.memory f) :
      Effect m s { s with memory := memory }
  /-- A frame is allocated and forgotten. -/
  | leak {s : System} {phys : Nat} {memory : Nat → Nat → UInt8}
      (htight : m.tight = false) (hfree : s.allocated phys = false)
      (hquiet : m.quiet → ∀ o f, s.owner o = some f → memory f = s.memory f) :
      Effect m s { s with
        allocated := update s.allocated phys true
        memory := memory }

/-! ## §2. Leaves and areas after a change. -/

/-- A leaf is judged by the kind of its area and by the directory. -/
theorem LeafOk.congr {leaf : Leaf} (h : ∃ kind, LeafOk m s space page leaf kind)
    (hcached : t.Cached leaf.frame ↔ s.Cached leaf.frame)
    (hkind : kindAt space'.vmas page = kindAt space.vmas page) :
    ∃ kind, LeafOk m t space' page leaf kind := by
  obtain ⟨kind, hok⟩ := h
  exact ⟨kind, hok.pageOk, hok.frameOk, hkind.trans hok.area, hok.attr, hcached.trans hok.cached,
    hok.fixed, hok.readable⟩

section

variable (h : Vacant m s root page space kind attr)

include h

theorem Vacant.leafOk (hframe : pageAligned f) (hcached : t.Cached f ↔ kind.backing = .fileBacked)
    (hfixed : kind.backing = .fileBacked → attr.writable = false)
    (hvmas : space'.vmas = space.vmas) : LeafOk m t space' page ⟨f, attr⟩ kind :=
  ⟨h.pageOk, hframe, hvmas ▸ h.area, h.granted, hcached, hfixed, h.readable⟩

theorem Vacant.leafAt : s.leafAt root page = none := by
  unfold System.leafAt
  rw [h.spaceAt]
  exact h.noLeaf

theorem Vacant.owner : s.owner (.leaf root page) = none := by
  simp [System.owner, h.leafAt]

end

namespace LeafSet

variable {l : Option Leaf} (hset : LeafSet s t root page space l)

include hset

theorem areas (h : Inv m s) : ∀ root' sp, t.spaces root' = some sp → VmasOk sp.layout sp.vmas := by
  intro root' sp hsp
  rw [hset.spaces] at hsp
  rcases update_some_cases hsp with ⟨_, rfl⟩ | ⟨_, hsp⟩
  · exact h.areas root space hset.spaceAt
  · exact h.areas root' sp hsp

theorem leaves (h : Inv m s) (hcached : ∀ root' page' leaf, s.leafAt root' page' = some leaf →
      ¬(root' = root ∧ page' = page) → (t.Cached leaf.frame ↔ s.Cached leaf.frame))
    (hnew : ∀ leaf, l = some leaf → ∃ kind, LeafOk m t space page leaf kind) :
    ∀ root' sp page leaf, t.spaces root' = some sp → sp.leaves page = some leaf →
      ∃ kind, LeafOk m t sp page leaf kind := by
  intro root' sp page' leaf hsp hleaf
  rw [hset.spaces] at hsp
  rcases update_some_cases hsp with ⟨rfl, rfl⟩ | ⟨hroot, hsp⟩
  · by_cases hpage : page' = page
    · subst hpage
      have hleaf' : update space.leaves page' l page' = some leaf := hleaf
      rw [update_self] at hleaf'
      exact LeafOk.congr (hnew leaf hleaf') Iff.rfl rfl
    · have hleaf' : update space.leaves page l page' = some leaf := hleaf
      rw [update_of_ne hpage] at hleaf'
      have hat := leafAt_some.mpr ⟨space, hset.spaceAt, hleaf'⟩
      exact LeafOk.congr (h.leaves _ space page' leaf hset.spaceAt hleaf')
        (hcached _ page' leaf hat (fun heq => hpage heq.2)) rfl
  · exact LeafOk.congr (h.leaves root' sp page' leaf hsp hleaf) (hcached root' page' leaf
      (leafAt_some.mpr ⟨sp, hsp, hleaf⟩) (fun heq => hroot heq.1)) rfl

/-- The writable leaves are the old ones and, if it is writable, the new one. -/
theorem lone (h : Inv m s) (hnew : m.lone → ∀ leaf, l = some leaf → leaf.attr.writable →
      ∀ o, t.owner o = some leaf.frame → o = .leaf root page)
    (hold : m.lone → ∀ root' page' leaf, s.leafAt root' page' = some leaf →
      ¬(root' = root ∧ page' = page) → leaf.attr.writable →
        ∀ o, t.owner o = some leaf.frame → s.owner o = some leaf.frame) :
    m.lone → ∀ root page leaf, t.leafAt root page = some leaf →
      leaf.attr.writable → ∀ o, t.owner o = some leaf.frame → o = .leaf root page := by
  intro hm root' page' leaf hleaf hw o ho
  by_cases hsame : root' = root ∧ page' = page
  · rw [hsame.1, hsame.2] at hleaf ⊢
    exact hnew hm leaf (hset.leafAt_self.symm.trans hleaf) hw o ho
  · rw [hset.leafAt_other hsame] at hleaf
    exact h.lone hm root' page' leaf hleaf hw o (hold hm root' page' leaf hleaf hsame hw o ho)

end LeafSet

/-- The entries of the directory, when none of their frames gains or loses an owner. -/
theorem entries_congr (h : Inv m s) (hshared : t.shared = s.shared)
    (hcount : ∀ f, s.Cached f → count t.owner f = count s.owner f) :
    ∀ k entry, t.shared k = some entry → EntryOk t k entry := by
  intro k entry hk
  rw [hshared] at hk
  have hok := h.entries k entry hk
  exact ⟨hok.bound, (hcount _ ⟨k, owner_cache hk⟩).trans hok.count, hok.mapped⟩

theorem distinct_congr (h : Inv m s)
    (hcache : ∀ k f, t.owner (.cache k) = some f → s.owner (.cache k) = some f) :
    ∀ k k' f, t.owner (.cache k) = some f → t.owner (.cache k') = some f → k = k' :=
  fun k k' f hk hk' => h.distinct k k' f (hcache k f hk) (hcache k' f hk')

/-- Two pages of the directory have two frames. -/
theorem Inv.framePhys_ne (h : Inv m s) {j : Nat} {other : SharedReadonlyPage} (hjk : j ≠ k)
    (hj : s.shared j = some other) (hk : s.shared k = some entry) :
    other.framePhys ≠ entry.framePhys := by
  intro heq
  exact hjk (h.distinct j k _ (owner_cache hj) (heq ▸ owner_cache hk))

theorem cached_congr (hshared : t.shared = s.shared) (f : Nat) : t.Cached f ↔ s.Cached f :=
  exists_congr (fun k => by simp only [owner, hshared])

/-- A count changes; one that is not kept stays zero. -/
theorem untracked_update {n : Nat} (h : ∀ g, s.tracked g = false → s.refcount g = 0)
    (hn : s.tracked f = false → n = 0) :
    ∀ g, s.tracked g = false → update s.refcount f n g = 0 := by
  intro g hg
  by_cases hgf : g = f
  · subst hgf
    rw [update_self]
    exact hn hg
  · rw [update_of_ne hgf]
    exact h g hg

/-- A new holder takes a reference of its own. -/
theorem Inv.files_retain (h : Inv m s) (hvacant : s.holder o = none) (file f : Nat) :
    update s.fileRefs file (s.fileRefs file + 1) f + count s.holder f =
      s.fileRefs f + count (update s.holder o (some file)) f := by
  rw [count_fill h.held hvacant]
  by_cases hf : f = file
  · rw [if_pos hf, hf, update_self]
    omega
  · rw [if_neg hf, update_of_ne hf]
    rfl

/-- A holder that goes gives its reference back. -/
theorem Inv.files_release (h : Inv m s) (hholds : s.holder o = some file)
    (f : Nat) : update s.fileRefs file (s.fileRefs file - 1) f + count s.holder f =
      s.fileRefs f + count (update s.holder o none) f := by
  have hc := count_vacate h.held hholds f
  have hfiles := h.files f
  by_cases hf : f = file
  · subst hf
    rw [if_pos rfl] at hc
    rw [update_self]
    omega
  · rw [if_neg hf, Nat.add_zero] at hc
    rw [update_of_ne hf, hc]

/-- The references that grow with the holders are enough for them. -/
theorem Inv.files_of (h : Inv m s) (hbooks : t.fileRefs f + count s.holder f =
    s.fileRefs f + count t.holder f) : count t.holder f ≤ t.fileRefs f := by
  have hfiles := h.files f
  omega

/-- A leaf comes or goes, and the entries of the directory keep their frames and files. -/
theorem Inv.leafSet {l : Option Leaf} (h : Inv m s) (hset : LeafSet s t root page space l)
    (hcache : ∀ k, t.owner (.cache k) = s.owner (.cache k))
    (hpage : ∀ k, t.holder (.page k) = s.holder (.page k)) (hrefs : t.fileRefs = s.fileRefs)
    (huntracked : ∀ f, t.tracked f = false → t.refcount f = 0)
    (hexact : Exact (update s.owner (.leaf root page) (l.map Leaf.frame)) t.refcount t.allocated)
    (hentries : ∀ k entry, t.shared k = some entry → EntryOk t k entry)
    (hnew : ∀ leaf, l = some leaf → ∃ kind, LeafOk m t space page leaf kind)
    (hlone : ∀ leaf, l = some leaf → leaf.attr.writable → ∀ o, s.owner o ≠ some leaf.frame)
    (hold : m.lone → ∀ root' page' leaf, s.leafAt root' page' = some leaf → leaf.attr.writable →
      l.map Leaf.frame ≠ some leaf.frame) : Inv m t := by
  have howner := hset.owner_eq hcache
  have hholder := hset.holder_eq hpage
  refine ⟨howner ▸ hexact, huntracked, hentries,
    distinct_congr h (fun j _ hj => (hcache j).symm.trans hj), hset.areas h,
    hset.leaves h (fun _ _ _ _ _ => exists_congr (fun j => Eq.congr_left (hcache j))) hnew,
    hset.lone h (fun _ leaf hleaf hw o ho => ?_) (fun hm root' page' leaf hleaf _ hw o ho => ?_),
    hholder ▸ h.held, by rw [hholder, hrefs]; exact h.files⟩
  · by_contra hne
    rw [howner, update_of_ne hne] at ho
    exact hlone leaf hleaf hw o ho
  · by_cases ho' : o = .leaf root page
    · rw [howner, ho', update_self] at ho
      exact absurd ho (hold hm root' page' leaf hleaf hw)
    · rwa [howner, update_of_ne ho'] at ho

/-- The entries of the directory, when the leaf is of another frame. -/
theorem LeafSet.entries {l : Option Leaf} (hset : LeafSet s t root page space l) (h : Inv m s)
    (hshared : t.shared = s.shared) (hcached : ∀ f, s.Cached f →
      s.owner (.leaf root page) ≠ some f ∧ l.map Leaf.frame ≠ some f) :
    ∀ k entry, t.shared k = some entry → EntryOk t k entry := by
  refine entries_congr h hshared (fun f hf => ?_)
  rw [hset.owner_eq (fun k => by simp only [owner, hshared])]
  exact count_update (hcached f hf).1 (hcached f hf).2

/-! ## §3. Pages that are mapped. -/

section Map

variable {u : System} {phys : Nat} {bytes : Nat → UInt8}

section

variable (h : Inv m s) (hvac : Vacant m s root page space kind attr)
  (hback : kind.backing ≠ .fileBacked)

include h hvac hback

theorem Inv.mapFresh (hphys : pageAligned phys) (hfree : s.allocated phys = false) :
    Inv m ((s.claimFrame phys bytes).setLeaf root page (some ⟨phys, attr⟩)) := by
  have hown : ∀ o, s.owner o ≠ some phys := h.exact.not_owned hfree
  have hset : LeafSet s ((s.claimFrame phys bytes).setLeaf root page (some ⟨phys, attr⟩)) root
      page space (some ⟨phys, attr⟩) := ⟨hvac.spaceAt, setLeaf_spaces hvac.spaceAt page _⟩
  refine h.leafSet hset (fun _ => rfl) (fun _ => rfl) rfl h.untracked
    ((h.exact.remark hown true).claim hvac.owner hown (update_self ..))
    (hset.entries h rfl (fun f hf => ?_)) (fun leaf hleaf => ?_) (fun leaf hleaf _ => ?_)
    (fun _ root' page' leaf hleaf _ heq => hown _ ((owner_leaf hleaf).trans heq.symm))
  · obtain ⟨k, hk⟩ := hf
    exact ⟨by rw [hvac.owner]; nofun, fun heq => hown _ (hk.trans heq.symm)⟩
  · cases hleaf
    refine ⟨kind, hvac.leafOk hphys ⟨fun hc => ?_, fun hb => absurd hb hback⟩
      (fun hb => absurd hb hback) rfl⟩
    obtain ⟨k, hk⟩ := hc
    exact absurd hk (hown (.cache k))
  · cases hleaf
    exact hown

theorem Inv.mapShared {root' page' : Nat} {leaf : Leaf}
    (hleaf : s.leafAt root' page' = some leaf) (hcached : ¬s.Cached leaf.frame)
    (hframe : pageAligned leaf.frame) (hro : leaf.attr.writable = false)
    (hro' : attr.writable = false) (hinc : s.frameRefInc leaf.frame = some t) :
    Inv m (t.setLeaf root page (some ⟨leaf.frame, attr⟩)) := by
  obtain ⟨htracked, rfl⟩ := frameRefInc_some hinc
  have hown := owner_leaf hleaf
  have hset := LeafSet.mk (s := s) hvac.spaceAt (setLeaf_spaces (s := { s with
    refcount := update s.refcount leaf.frame (inc (s.refcount leaf.frame)) })
      hvac.spaceAt page (some ⟨leaf.frame, attr⟩))
  refine h.leafSet hset (fun _ => rfl) (fun _ => rfl) rfl
    (untracked_update h.untracked (fun hno => nomatch htracked.symm.trans hno))
    (h.exact.share hvac.owner hown) (hset.entries h rfl (fun f hf => ?_))
    (fun new hnew => ?_) (fun new hnew hw => ?_) (fun hm root1 page1 other hother hw heq => ?_)
  · exact ⟨by rw [hvac.owner]; nofun, fun heq => hcached (Option.some.inj heq ▸ hf)⟩
  · cases hnew
    exact ⟨kind, hvac.leafOk hframe
      ⟨fun hc => absurd hc hcached, fun hb => absurd hb hback⟩ (fun hb => absurd hb hback) rfl⟩
  · cases hnew
    cases hro'.symm.trans hw
  · -- The frame that is shared is not one that could be written.
    have hpos := h.lone hm root1 page1 other hother hw _ (hown.trans heq)
    cases hpos
    rw [hleaf] at hother
    cases hother
    cases hro.symm.trans hw

end

/-- A mapping of an entry is retained. -/
theorem retainMapping_some (hretain : s.sharedReadonlyRetainMapping k entry = some t) :
    s.tracked entry.framePhys ∧ t = { s with
        refcount := update s.refcount entry.framePhys (inc (s.refcount entry.framePhys))
        shared := update s.shared k (some { entry with pteRefs := entry.pteRefs + 1 }) } := by
  unfold sharedReadonlyRetainMapping at hretain
  rw [map_eq_some_iff] at hretain
  obtain ⟨counted, hinc, rfl⟩ := hretain
  obtain ⟨htracked, rfl⟩ := frameRefInc_some hinc
  exact ⟨htracked, rfl⟩

theorem Inv.mapCached (h : Inv m s) (hvac : Vacant m s root page space kind attr)
    (hback : kind.backing = .fileBacked) (hk : s.shared k = some entry)
    (hframe : pageAligned entry.framePhys) (hro : attr.writable = false)
    (hretain : s.sharedReadonlyRetainMapping k entry = some t) :
    Inv m (t.setLeaf root page (some ⟨entry.framePhys, attr⟩)) := by
  obtain ⟨htracked, rfl⟩ := retainMapping_some hretain
  have hset := LeafSet.mk (s := s) hvac.spaceAt (setLeaf_spaces (s := { s with
    refcount := update s.refcount entry.framePhys (inc (s.refcount entry.framePhys))
    shared := update s.shared k (some { entry with pteRefs := entry.pteRefs + 1 }) })
      hvac.spaceAt page (some ⟨entry.framePhys, attr⟩))
  -- The entry keeps its frame and its file.
  have hcache := map_update_eq framePhys hk
    (show _ = ({ entry with pteRefs := entry.pteRefs + 1 } : SharedReadonlyPage).framePhys from rfl)
  have howner := hset.owner_eq hcache
  refine h.leafSet hset hcache (map_update_eq backing hk rfl) rfl
    (untracked_update h.untracked (fun hno => nomatch htracked.symm.trans hno))
    (h.exact.share hvac.owner (owner_cache hk)) (fun j other hj => ?_) (fun new hnew => ?_)
    (fun new hnew hw => ?_) (fun hm root1 page1 other hother hw heq => ?_)
  · rcases update_some_cases hj with ⟨rfl, rfl⟩ | ⟨hjk, hj'⟩
    · refine ⟨(h.entries j entry hk).bound, ?_, Nat.succ_pos _⟩
      rw [howner, map_some, count_fill h.exact.finite hvac.owner, if_pos rfl,
        (h.entries j entry hk).count]
    have hok := h.entries j other hj'
    refine ⟨hok.bound, ?_, hok.mapped⟩
    rw [howner, map_some, count_fill h.exact.finite hvac.owner,
      if_neg (h.framePhys_ne hjk hj' hk), Nat.add_zero]
    exact hok.count
  · cases hnew
    exact ⟨kind, hvac.leafOk hframe
      ⟨fun _ => hback, fun _ => ⟨k, (hcache k).trans (owner_cache hk)⟩⟩ (fun _ => hro) rfl⟩
  · cases hnew
    cases hro.symm.trans hw
  · -- A leaf of a frame in the directory is never writable.
    obtain ⟨sp, hsp, hleaf⟩ := leafAt_some.mp hother
    obtain ⟨_, hok⟩ := h.leaves root1 sp page1 other hsp hleaf
    have hfile := hok.cached.mp ⟨k, (owner_cache hk).trans heq⟩
    cases (hok.fixed hfile).symm.trans hw

/-- A new entry in a slot that was free. -/
theorem publishNew_some {key : SharedReadonlyKey}
    (h : s.sharedReadonlyPublishNew key phys backing = some (k, t)) :
    s.shared k = none ∧ k < MAX_SHARED_READONLY_PAGES ∧
      t = (s.retainFile backing).setShared k (some ⟨key, phys, 0, backing⟩) := by
  unfold sharedReadonlyPublishNew at h
  split at h
  · cases h
  rw [map_eq_some_iff] at h
  obtain ⟨j, hfree, heq⟩ := h
  cases heq
  refine ⟨?_, List.mem_range.mp (List.mem_of_find?_eq_some hfree), rfl⟩
  simpa using List.find?_some hfree

/-- The state after a new page of the directory has been mapped. -/
structure MappedNew (s t : System) (root page k phys backing : Nat) (attr : PageAttr)
    (space : AddressSpace) : Prop where
  bound : k < MAX_SHARED_READONLY_PAGES
  slot : s.shared k = none
  tracked : s.tracked phys
  set : LeafSet s t root page space (some ⟨phys, attr⟩)
  shared : ∃ key, t.shared = update s.shared k (some ⟨key, phys, 1, backing⟩)
  owner : t.owner = update (update s.owner (.cache k) (some phys))
    (.leaf root page) (some phys)
  holder : t.holder = update s.holder (.page k) (some backing)
  refcount : t.refcount = update s.refcount phys (inc (s.refcount phys))
  allocated : t.allocated = update s.allocated phys true
  fileRefs : t.fileRefs = update s.fileRefs backing (s.fileRefs backing + 1)
  tracks : t.tracked = s.tracked
  memory : ∀ f, f ≠ phys → t.memory f = s.memory f

theorem mappedNew {key : SharedReadonlyKey} (hspace : s.spaces root = some space)
    (hpublish : (s.claimFrame phys bytes).sharedReadonlyPublishNew key phys backing = some (k, t))
    (hretain : t.sharedReadonlyRetainMapping k ⟨key, phys, 0, backing⟩ = some u) :
    MappedNew s (u.setLeaf root page (some ⟨phys, attr⟩)) root page k phys backing attr space := by
  obtain ⟨hslot, hbound, rfl⟩ := publishNew_some hpublish
  obtain ⟨htracked, rfl⟩ := retainMapping_some hretain
  -- The state with the entry and without the leaf.
  have hmidOwner := owner_setShared s k (some ⟨key, phys, 1, backing⟩)
  have hmidHolder := holder_setShared s k (some ⟨key, phys, 1, backing⟩)
  generalize hfinal : setLeaf _ root page (some ⟨phys, attr⟩) = final
  have hshared : final.shared = (s.setShared k (some ⟨key, phys, 1, backing⟩)).shared := by
    rw [← hfinal]
    show update (update s.shared k _) k _ = _
    rw [update_idem]
    rfl
  have hset : LeafSet s final root page space (some ⟨phys, attr⟩) := by
    rw [← hfinal]
    exact ⟨hspace, setLeaf_spaces hspace page _⟩
  have hset' : LeafSet (s.setShared k (some ⟨key, phys, 1, backing⟩)) final root page space
      (some ⟨phys, attr⟩) := ⟨hspace, hset.spaces⟩
  refine ⟨hbound, hslot, htracked, hset, ⟨key, hshared⟩, ?_, ?_, ?_, ?_, ?_, ?_, ?_⟩
  · have howner := hset'.owner_eq (fun j => by simp only [owner, hshared])
    rw [hmidOwner] at howner
    exact howner
  · have hholder := hset'.holder_eq (fun j => by simp only [holder, hshared])
    rw [hmidHolder] at hholder
    exact hholder
  · rw [← hfinal]
    rfl
  · rw [← hfinal]
    rfl
  · rw [← hfinal]
    rfl
  · rw [← hfinal]
    rfl
  · intro f hf
    rw [← hfinal]
    exact update_of_ne hf ..

theorem Inv.mapNew {final : System} (h : Inv m s) (hvac : Vacant m s root page space kind attr)
    (hback : kind.backing = .fileBacked) (hphys : pageAligned phys)
    (hfree : s.allocated phys = false) (hro : attr.writable = false)
    (hmapped : MappedNew s final root page k phys backing attr space) : Inv m final := by
  have hown : ∀ o, s.owner o ≠ some phys := h.exact.not_owned hfree
  have hnone : s.owner (.cache k) = none := by simp [owner, hmapped.slot]
  have hset := hmapped.set
  have howner := hmapped.owner
  have hclaimed := (h.exact.remark hown true).claim hnone hown (update_self ..)
  have hleafNone : update s.owner (.cache k) (some phys) (.leaf root page) = none := by
    exact hvac.owner
  have hcountMid : ∀ f, count (update s.owner (.cache k) (some phys)) f =
      count s.owner f + if f = phys then 1 else 0 :=
    count_fill h.exact.finite hnone phys
  have hcount : ∀ f, count final.owner f =
      count s.owner f + (if f = phys then 1 else 0) + if f = phys then 1 else 0 := by
    intro f
    rw [howner, count_fill hclaimed.finite hleafNone, hcountMid]
  have hcached : ∀ f, f ≠ phys → (final.Cached f ↔ s.Cached f) := by
    intro f hf
    refine exists_congr (fun j => ?_)
    rw [howner, update_of_ne (cache_ne_leaf j root page)]
    by_cases hj : j = k
    · rw [hj, update_self, hnone]
      exact ⟨fun heq => absurd (Option.some.inj heq).symm hf, fun heq => by cases heq⟩
    · rw [update_of_ne (fun heq => hj (cache.inj heq))]
  refine ⟨?_, ?_, ?_, ?_, hset.areas h, hset.leaves h ?_ ?_, hset.lone h ?_ ?_, ?_, ?_⟩
  · rw [howner, hmapped.refcount, hmapped.allocated]
    exact hclaimed.share hleafNone (update_self ..)
  · rw [hmapped.refcount, hmapped.tracks]
    exact untracked_update h.untracked (fun hno => by cases hmapped.tracked.symm.trans hno)
  · intro j other hj
    obtain ⟨key, hshared⟩ := hmapped.shared
    rw [hshared] at hj
    rcases update_some_cases hj with ⟨rfl, rfl⟩ | ⟨_, hj⟩
    · refine ⟨hmapped.bound, ?_, Nat.one_pos⟩
      rw [hcount, h.exact.count_of_not_owned hown, if_pos rfl]
    have hok := h.entries j other hj
    have hne : other.framePhys ≠ phys := fun heq => hown _ (heq ▸ owner_cache hj)
    refine ⟨hok.bound, ?_, hok.mapped⟩
    rw [hcount, if_neg hne]
    exact hok.count
  · intro j j' f hj hj'
    rw [howner, update_of_ne (cache_ne_leaf _ root page)] at hj hj'
    rcases update_some_cases hj with ⟨hjk, heq⟩ | ⟨_, hj⟩ <;>
      rcases update_some_cases hj' with ⟨hjk', heq'⟩ | ⟨_, hj'⟩
    · exact cache.inj (hjk.trans hjk'.symm)
    · exact absurd (heq ▸ hj') (hown _)
    · exact absurd (heq' ▸ hj) (hown _)
    · exact h.distinct j j' f hj hj'
  · intro root' page' leaf hleaf _
    exact hcached leaf.frame (fun heq => hown _ (heq ▸ owner_leaf hleaf))
  · intro new hnew
    cases hnew
    refine ⟨kind, hvac.leafOk hphys ⟨fun _ => hback, fun _ => ⟨k, ?_⟩⟩ (fun _ => hro) rfl⟩
    rw [howner, update_of_ne (cache_ne_leaf k root page), update_self]
  · intro _ new hnew hw
    cases hnew
    cases hro.symm.trans hw
  · intro _ root1 page1 other hother _ _ o ho
    have hne : other.frame ≠ phys := fun heq => hown _ (heq ▸ owner_leaf hother)
    rw [howner] at ho
    rcases update_some_cases ho with ⟨_, heq⟩ | ⟨_, ho⟩
    · exact absurd heq.symm hne
    · rcases update_some_cases ho with ⟨_, heq⟩ | ⟨_, ho⟩
      · exact absurd heq.symm hne
      · exact ho
  · rw [hmapped.holder]
    exact h.held.update _ _
  · intro f
    refine h.files_of ?_
    rw [hmapped.holder, hmapped.fileRefs]
    exact h.files_retain (by simp [holder, hmapped.slot]) backing f

end Map

/-! ## §4. Pages that are unmapped. -/

section Drop

variable {leaf : Leaf}

theorem Inv.drop (h : Inv m s) (hleaf : s.leafAt root page = some leaf)
    (hcached : ¬s.Cached leaf.frame) :
    Inv m ((s.setLeaf root page none).frameRefDecAndMaybeFree leaf.frame) := by
  obtain ⟨space, hspace, _⟩ := leafAt_some.mp hleaf
  rw [frameRefDec_eq (s := s.setLeaf root page none) (h.untracked leaf.frame)]
  have hset (counts : Nat → Nat) (marks : Nat → Bool) : LeafSet s { s.setLeaf root page none with
      refcount := counts, allocated := marks } root page space none :=
    ⟨hspace, setLeaf_spaces hspace page none⟩
  refine h.leafSet (hset _ _) (fun _ => rfl) (fun _ => rfl) rfl
    (untracked_update h.untracked (fun hno => congrArg dec (h.untracked leaf.frame hno)))
    (h.exact.drop (owner_leaf hleaf))
      ((hset _ _).entries h rfl (fun f hf => ⟨fun heq => ?_, nofun⟩))
    nofun nofun (fun _ _ _ _ _ _ => nofun)
  rw [owner_leaf hleaf] at heq
  exact hcached (Option.some.inj heq ▸ hf)

/-- The state after a leaf of a directory page has gone. -/
def System.unmappedEntry (s : System) (root page k : Nat) (entry : SharedReadonlyPage) : System :=
  { s.setLeaf root page none with
    shared := update s.shared k (some { entry with pteRefs := entry.pteRefs - 1 })
    refcount := update s.refcount entry.framePhys
      (dec (s.refcount entry.framePhys)) }

/-- The state after the last leaf of a directory page has gone. -/
def System.clearedEntry (s : System) (root page k : Nat) (entry : SharedReadonlyPage) : System :=
  { s.setLeaf root page none with
    shared := update s.shared k none
    refcount := update s.refcount entry.framePhys 0
    allocated := update s.allocated entry.framePhys false
    fileRefs := update s.fileRefs entry.backing (s.fileRefs entry.backing - 1) }

/-- A frame of the directory is counted, with one more than its leaves. -/
theorem Inv.cached_refcount (h : Inv m s) (hk : s.shared k = some entry) :
    s.refcount entry.framePhys = entry.pteRefs + 1 := by
  have hok := h.entries k entry hk
  have hpos := hok.mapped
  rw [h.exact.stored, hok.count, encode, if_neg (by omega)]

theorem Inv.dropMapping_eq (h : Inv m s) (hk : s.shared k = some entry) :
    (s.setLeaf root page none).sharedReadonlyDropMapping entry.framePhys =
      if entry.pteRefs = 1 then s.clearedEntry root page k entry
      else s.unmappedEntry root page k entry := by
  set bare := s.setLeaf root page none
  have hok := h.entries k entry hk
  have hpos := hok.mapped
  have hcount := h.cached_refcount hk
  have hfind : bare.sharedOfFrame entry.framePhys = some (k, entry) := h.sharedOfFrame_eq hk
  have hone : (entry.pteRefs - 1 = 0) ↔ entry.pteRefs = 1 := by omega
  have hne : ¬s.refcount entry.framePhys = 0 := by omega
  unfold sharedReadonlyDropMapping
  rw [hfind]
  dsimp only
  rw [frameRefDec_eq (s := bare.setShared k _) (h.untracked _),
    if_neg (show ¬(bare.setShared k _).refcount entry.framePhys = 0 from hne)]
  by_cases hlast : entry.pteRefs = 1
  · rw [if_pos (hone.mpr hlast), if_pos hlast]
    -- The count has gone to zero, so the directory was the last owner.
    have hzero : update bare.refcount entry.framePhys
        (dec (bare.refcount entry.framePhys)) entry.framePhys = 0 := by
      rw [update_self, show bare.refcount = s.refcount from rfl, hcount, hlast]
      rfl
    rw [frameRefDec_eq (fun _ => hzero)]
    unfold clearedEntry releaseFile setShared
    simp only [hzero, if_true, update_idem]
    rfl
  · rw [if_neg (fun hz => hlast (hone.mp hz)), if_neg hlast]
    rfl

section

variable (h : Inv m s) (hleaf : s.leafAt root page = some leaf) (hk : s.shared k = some entry)
  (hframe : entry.framePhys = leaf.frame)

include h hleaf hk hframe

theorem Inv.dropCached_ne (hmore : entry.pteRefs ≠ 1) :
    Inv m (s.unmappedEntry root page k entry) := by
  obtain ⟨space, hspace, _⟩ := leafAt_some.mp hleaf
  have hpos := (h.entries k entry hk).mapped
  have hset : LeafSet s (s.unmappedEntry root page k entry) root page space none :=
    ⟨hspace, setLeaf_spaces hspace page none⟩
  have hcache := map_update_eq framePhys hk
    (show _ = ({ entry with pteRefs := entry.pteRefs - 1 } : SharedReadonlyPage).framePhys from rfl)
  have howner := hset.owner_eq hcache
  have hown : s.owner (.leaf root page) = some entry.framePhys := by
    rw [owner_leaf hleaf, hframe]
  have hcount : ∀ f, count (s.unmappedEntry root page k entry).owner f +
      (if f = entry.framePhys then 1 else 0) = count s.owner f := by
    intro f
    rw [howner]
    exact (count_vacate h.exact.finite hown f).symm
  have hexact := h.exact.drop hown
  rw [if_neg (by rw [h.cached_refcount hk]; omega)] at hexact
  refine h.leafSet hset hcache (map_update_eq backing hk rfl) rfl
    (untracked_update h.untracked (fun hno => by rw [h.untracked _ hno]; rfl)) hexact
    (fun j other hj => ?_) nofun nofun (fun _ _ _ _ _ _ => nofun)
  rcases update_some_cases hj with ⟨rfl, rfl⟩ | ⟨hjk, hj'⟩
  · have hc := hcount entry.framePhys
    rw [if_pos rfl, (h.entries j entry hk).count] at hc
    exact ⟨(h.entries j entry hk).bound,
      by show count _ entry.framePhys = entry.pteRefs - 1 + 1; omega,
      by show 0 < entry.pteRefs - 1; omega⟩
  · have hok := h.entries j other hj'
    have hc := hcount other.framePhys
    rw [if_neg (h.framePhys_ne hjk hj' hk), Nat.add_zero] at hc
    exact ⟨hok.bound, hc.trans hok.count, hok.mapped⟩

/-- The only owners of a page of the directory with one mapping. -/
theorem Inv.last_owner (hlast : entry.pteRefs = 1) {o : Owner}
    (ho : s.owner o = some entry.framePhys) : o = .leaf root page ∨ o = .cache k := by
  by_contra hnot
  rw [not_or] at hnot
  have hown : s.owner (.leaf root page) = some entry.framePhys := by
    rw [owner_leaf hleaf, hframe]
  -- Without the leaf one owner is left.
  have hone : count (update s.owner (.leaf root page) none) entry.framePhys ≤ 1 := by
    have hc := count_vacate h.exact.finite hown entry.framePhys
    rw [if_pos rfl, (h.entries k entry hk).count] at hc
    omega
  have hcacheNe := cache_ne_leaf k root page
  refine hnot.2 (eq_of_count (h.exact.finite.update _ _) hone ?_ ?_)
  · rw [update_of_ne hnot.1]
    exact ho
  · rw [update_of_ne hcacheNe]
    exact owner_cache hk

end

theorem clearedEntry_owner (hspace : s.spaces root = some space) (page k : Nat)
    (entry : SharedReadonlyPage) : (s.clearedEntry root page k entry).owner =
      update (update s.owner (.leaf root page) none) (.cache k) none := by
  have hmid := (leafSet_setLeaf hspace page none).owner_eq (fun _ => rfl)
  have hclear := owner_setShared (s.setLeaf root page none) k none
  rw [hmid, map_none, map_none] at hclear
  rw [← hclear]
  exact owner_congr rfl rfl

theorem clearedEntry_holder (hspace : s.spaces root = some space) (page k : Nat)
    (entry : SharedReadonlyPage) : (s.clearedEntry root page k entry).holder =
      update s.holder (.page k) none := by
  have hmid := (leafSet_setLeaf hspace page none).holder_eq (fun _ => rfl)
  have hclear := holder_setShared (s.setLeaf root page none) k none
  rw [hmid, map_none] at hclear
  rw [← hclear]
  exact holder_congr rfl rfl

theorem Inv.dropCached_one (h : Inv m s) (hleaf : s.leafAt root page = some leaf)
    (hk : s.shared k = some entry) (hframe : entry.framePhys = leaf.frame)
    (hlast : entry.pteRefs = 1) : Inv m (s.clearedEntry root page k entry) := by
  obtain ⟨space, hspace, _⟩ := leafAt_some.mp hleaf
  have hown : s.owner (.leaf root page) = some entry.framePhys := by
    rw [owner_leaf hleaf, hframe]
  have hset : LeafSet s (s.clearedEntry root page k entry) root page space none :=
    ⟨hspace, setLeaf_spaces hspace page none⟩
  have howner := clearedEntry_owner hspace page k entry
  have hholder := clearedEntry_holder hspace page k entry
  have hmidCache : update s.owner (.leaf root page) none (.cache k) = some entry.framePhys := by
    exact owner_cache hk
  have hfirst := h.exact.drop hown
  have hcountR : s.refcount entry.framePhys = 2 := by rw [h.cached_refcount hk, hlast]
  have hsecond := hfirst.drop hmidCache
  have hback : ∀ {o f}, (s.clearedEntry root page k entry).owner o = some f →
      s.owner o = some f ∧ f ≠ entry.framePhys := by
    intro o f ho
    rw [howner] at ho
    obtain ⟨hne, ho⟩ := update_none_some ho
    obtain ⟨hne', ho⟩ := update_none_some ho
    refine ⟨ho, fun heq => ?_⟩
    rcases h.last_owner hleaf hk hframe hlast (heq ▸ ho) with hl | hc
    · exact hne' hl
    · exact hne hc
  refine ⟨?_, untracked_update h.untracked (fun _ => rfl), ?_,
    distinct_congr h (fun _ _ hj => (hback hj).1), hset.areas h, hset.leaves h ?_ nofun,
    hset.lone h nofun ?_, ?_, ?_⟩
  · rw [howner]
    simp only [hcountR, update_self, update_idem] at hsecond
    exact hsecond
  · intro j other hj
    obtain ⟨hjk, hj'⟩ := update_none_some hj
    have hok := h.entries j other hj'
    have hne := h.framePhys_ne hjk hj' hk
    refine ⟨hok.bound, ?_, hok.mapped⟩
    have hc1 := count_vacate h.exact.finite hown other.framePhys
    have hc2 := count_vacate hfirst.finite hmidCache other.framePhys
    rw [if_neg hne, Nat.add_zero] at hc1 hc2
    rw [howner, ← hc2, ← hc1]
    exact hok.count
  · intro root' page' other hother hsame
    constructor
    · intro hc
      obtain ⟨j, hj⟩ := hc
      exact ⟨j, (hback hj).1⟩
    · intro hc
      obtain ⟨j, hj⟩ := hc
      refine ⟨j, ?_⟩
      have hjk : j ≠ k := by
        intro heq
        have hsame' : other.frame = entry.framePhys := by
          rw [heq, owner_cache hk] at hj
          exact (Option.some.inj hj).symm
        have hpos := h.last_owner hleaf hk hframe hlast (hsame' ▸ owner_leaf hother)
        rcases hpos with hl | hl
        · cases hl
          exact hsame ⟨rfl, rfl⟩
        · exact cache_ne_leaf _ _ _ hl.symm
      rw [howner, update_of_ne (fun heq => hjk (cache.inj heq)),
        update_of_ne (cache_ne_leaf j root page)]
      exact hj
  · intro _ _ _ _ _ _ _ o ho
    exact (hback ho).1
  · rw [hholder]
    exact h.held.update _ _
  · intro f
    refine h.files_of ?_
    rw [hholder]
    exact h.files_release (by simp [holder, hk]) f

theorem Inv.dropCached (h : Inv m s) (hleaf : s.leafAt root page = some leaf)
    (hcached : s.Cached leaf.frame) :
    Inv m ((s.setLeaf root page none).sharedReadonlyDropMapping leaf.frame) := by
  obtain ⟨k, entry, hk, hframe⟩ := cached_entry hcached
  rw [← hframe, h.dropMapping_eq hk]
  split
  · exact h.dropCached_one hleaf hk hframe (by assumption)
  · exact h.dropCached_ne hleaf hk hframe (by assumption)

end Drop

/-! ## §5. Spaces. -/

section Space

variable {layout : UserRuntimeLayout}

/-- What a root keeps of its space. -/
structure Housed (m : Mode) (s : System) (root : Nat) (space : AddressSpace) : Prop where
  ok : VmasOk space.layout space.vmas
  leaves : ∀ page leaf, space.leaves page = some leaf → ∃ kind, LeafOk m s space page leaf kind
  lone : m.lone → ∀ page leaf, space.leaves page = some leaf →
    leaf.attr.writable → ∀ o, s.owner o = some leaf.frame → o = .leaf root page

theorem Inv.housed (h : Inv m s) (hspace : s.spaces root = some space) : Housed m s root space :=
  ⟨h.areas root space hspace, fun page leaf => h.leaves root space page leaf hspace,
    fun hm page leaf hleaf => h.lone hm root page leaf (leafAt_some.mpr ⟨space, hspace, hleaf⟩)⟩

/-- The spaces and the references of files change, and no owner does. -/
theorem Inv.rehoused {spaces : Nat → Option AddressSpace} {refs : Nat → Nat} (h : Inv m s)
    (howner : owner { s with spaces := spaces, fileRefs := refs } = s.owner)
    (hspaces : ∀ root space, spaces root = some space → Housed m s root space)
    (hheld : Finitely (holder { s with spaces := spaces, fileRefs := refs }))
    (hfiles : ∀ f, count (holder { s with spaces := spaces, fileRefs := refs }) f ≤ refs f) :
    Inv m { s with spaces := spaces, fileRefs := refs } := by
  refine ⟨howner ▸ h.exact, h.untracked, entries_congr h rfl (fun _ _ => by rw [howner]),
    distinct_congr h (fun _ _ hk => hk), fun root space hsp => (hspaces root space hsp).ok, ?_, ?_,
      hheld, hfiles⟩
  · intro root space page leaf hsp hleaf
    exact LeafOk.congr ((hspaces root space hsp).leaves page leaf hleaf) (cached_congr rfl _) rfl
  · intro hm root page leaf hleaf hw o ho
    rw [howner] at ho
    obtain ⟨space, hsp, hleaf⟩ := leafAt_some.mp hleaf
    exact (hspaces root space hsp).lone hm page leaf hleaf hw o ho

/-- A root whose leaves have the same frames has the same owners. -/
theorem owner_update {l l' : Option AddressSpace} (hl : s.spaces root = l)
    (ht : t.spaces = update s.spaces root l') (hshared : t.shared = s.shared)
    (hframes : ∀ page, (l'.bind (·.leaves page)).map Leaf.frame =
      (l.bind (·.leaves page)).map Leaf.frame) : t.owner = s.owner := by
  funext o
  cases o with
  | cache => simp only [owner, hshared]
  | leaf root' page =>
    simp only [owner, leafAt, ht]
    by_cases hroot : root' = root
    · subst hroot
      rw [update_self, hl]
      exact hframes page
    · rw [update_of_ne hroot]

theorem Inv.notShared (h : Inv m s) (hf : s.frameRefIsShared f = false) : s.refcount f < 2 := by
  unfold frameRefIsShared at hf
  rw [Bool.and_eq_false_iff] at hf
  rcases hf with hut | hless
  · rw [h.untracked f hut]
    omega
  · simpa using hless

theorem Inv.retag (h : Inv m s) (hspace : s.spaces root = some space)
    (hretags : Retags m s space space') :
    Inv m { s with spaces := update s.spaces root (some space') } := by
  have hholder := holder_update (t := { s with
    spaces := update s.spaces root (some space') }) hspace rfl (fun _ => rfl) hretags.files
  refine h.rehoused (owner_update hspace rfl rfl hretags.frames) (fun root' sp hsp => ?_)
    (hholder ▸ h.held) (hholder ▸ h.files)
  rcases update_some_cases hsp with ⟨rfl, rfl⟩ | ⟨_, hsp'⟩
  · refine ⟨hretags.ok, hretags.leaves, fun hm page leaf hleaf hw o ho => ?_⟩
    -- The leaf had the same frame before, and could be written or was not shared.
    have hframe := hretags.frames page
    rw [hleaf] at hframe
    cases hold : space.leaves page with
    | none =>
      rw [hold] at hframe
      cases hframe
    | some old =>
      rw [hold] at hframe
      have hsame : leaf.frame = old.frame := Option.some.inj hframe
      have hat := leafAt_some.mpr ⟨space, hspace, hold⟩
      rcases hretags.lone hm page old leaf hold hleaf hw with hwas | hnot
      · exact h.lone hm root' page old hat hwas o (hsame ▸ ho)
      · exact h.exact.lone (h.notShared hnot) (hsame ▸ ho) (owner_leaf hat)
  · exact h.housed hsp'

theorem VmasOk.fileOf_lt (h : VmasOk layout vmas) (hi : fileOf vmas i ≠ none) : i < MAX_VMAS := by
  unfold fileOf at hi
  cases hent : vmas.entries i with
  | none => exact absurd (by rw [hent]; rfl) hi
  | some entry => exact h.bound i entry hent

theorem fileOf_finitely (h : VmasOk layout vmas) : Finitely (fileOf vmas) :=
  (Set.finite_lt_nat MAX_VMAS).subset (fun _ => h.fileOf_lt)

/-- An area that is added takes no address away from another. -/
theorem Added.kindAt_keeps {a : Nat} {entry : VmaEntry}
    (hadded : Added vmas vmas' i entry) (hok : VmasOk layout vmas)
    (hallowed : runtimeVmaAllowed layout entry) (hkind : kindAt vmas a = some kind) :
    kindAt vmas' a = some kind := by
  unfold kindAt at hkind ⊢
  rw [map_eq_some_iff] at hkind
  obtain ⟨old, hat, rfl⟩ := hkind
  obtain ⟨j, hj, hlo, hhi⟩ := (vmaAt_iff hok).mp hat
  have hapart := hadded.apart j old hj (hok.bound j old hj)
  rw [hadded.vmaAt_eq hok hallowed, if_neg (by omega), hat]
  rfl

theorem holder_openArea {entry : VmaEntry} (hspace : s.spaces root = some space)
    (hadded : Added space.vmas vmas i entry) (hback : entry.backing = .fileBacked)
    (hfile : entry.fileBacking = some file) (hentries : vmas'.entries = vmas.entries) :
    holder { s.retainFile file with
        spaces := update s.spaces root (some { space with vmas := vmas' }) } =
      update s.holder (.area root i) (some file) := by
  funext o
  cases o with
  | page => rfl
  | area root' j =>
    show (update s.spaces root _ root').bind _ = _
    by_cases hroot : root' = root
    · subst hroot
      rw [update_self]
      show fileOf vmas' j = _
      unfold fileOf
      rw [hentries]
      by_cases hj : j = i
      · subst hj
        rw [update_self, hadded.self]
        simp [hback, hfile]
      · rw [update_of_ne (fun heq => hj (Holder.area.inj heq).2), hadded.other hj]
        simp [holder, hspace, fileOf]
    · rw [update_of_ne hroot, update_of_ne (fun heq => hroot (Holder.area.inj heq).1)]
      rfl

theorem Inv.openArea {entry : VmaEntry} (h : Inv m s)
    (hspace : s.spaces root = some space) (hadded : Added space.vmas vmas i entry)
    (hallowed : runtimeVmaAllowed space.layout entry) (hback : entry.backing = .fileBacked)
    (hfile : entry.fileBacking = some file) (hentries : vmas'.entries = vmas.entries)
    (hcount : vmas'.count = vmas.count) (hcursor : vmas'.anonNext = vmas.anonNext) :
    Inv m { s.retainFile file with
      spaces := update s.spaces root (some { space with vmas := vmas' }) } := by
  have hok := h.areas root space hspace
  have hadd := hadded.ok hok hallowed
  have hok' := hadd.congr hentries hcount (hcursor ▸ hadd.cursor)
  have hholder := holder_openArea hspace hadded hback hfile hentries
  have hvacant : s.holder (.area root i) = none := by
    simp [holder, hspace, fileOf, hadded.vacant]
  refine h.rehoused (owner_update hspace rfl rfl (fun _ => rfl)) (fun root' sp hsp => ?_)
    (hholder ▸ h.held.update _ _) (fun f => h.files_of ?_)
  · rcases update_some_cases hsp with ⟨rfl, rfl⟩ | ⟨_, hsp'⟩
    · have hhoused := h.housed hspace
      refine ⟨hok', fun page leaf hleaf => ?_, hhoused.lone⟩
      obtain ⟨kind, hleafOk⟩ := hhoused.leaves page leaf hleaf
      have hkeep := hadded.kindAt_keeps hok hallowed hleafOk.area
      refine LeafOk.congr ⟨kind, hleafOk⟩ Iff.rfl (Eq.trans ?_ (hkeep.trans hleafOk.area.symm))
      exact congrArg _ (vmaAt_congr hentries page)
    · exact h.housed hsp'
  · have hbooks := h.files_retain hvacant file f
    rw [← hholder] at hbooks
    exact hbooks

/-- The references of the areas of a space, beside those of the others. -/
theorem holder_extends (hroot : s.spaces root = none)
    (ht : t.spaces = update s.spaces root (some space)) (hshared : t.shared = s.shared) :
    RefCount.Extends s.holder t.holder (Holder.area root) (fileOf space.vmas) where
  injective _ _ heq := (Holder.area.inj heq).2
  vacant i := by simp [holder, hroot]
  inside i := by simp [holder, ht]
  outside o ho := by
    cases o with
    | page => simp only [holder, hshared]
    | area root' i =>
      have hne : root' ≠ root := fun heq => ho i (by rw [heq])
      simp only [holder, ht, update_of_ne hne]

theorem Inv.newSpace {refs : Nat → Nat} (h : Inv m s) (hroot : s.spaces root = none)
    (hok : VmasOk space.layout space.vmas) (hleaves : ∀ page, space.leaves page = none)
    (hrefs : ∀ f, refs f = s.fileRefs f + count (fileOf space.vmas) f) :
    Inv m { s with spaces := update s.spaces root (some space), fileRefs := refs } := by
  have hext := holder_extends (t := { s with
    spaces := update s.spaces root (some space), fileRefs := refs }) hroot rfl rfl
  refine h.rehoused (owner_update hroot rfl rfl (fun page => congrArg _ (hleaves page)))
    (fun root' sp hsp => ?_)
    (hext.finitely h.held (fileOf_finitely hok)) (fun f => ?_)
  · rcases update_some_cases hsp with ⟨rfl, rfl⟩ | ⟨_, hsp'⟩
    · have hnone : ∀ page leaf, space.leaves page ≠ some leaf := by
        simp [hleaves]
      exact ⟨hok, fun page leaf hleaf => absurd hleaf (hnone page leaf),
        fun _ page leaf hleaf => absurd hleaf (hnone page leaf)⟩
    · exact h.housed hsp'
  · rw [count_extend hext h.held (fileOf_finitely hok), hrefs]
    exact Nat.add_le_add_right (h.files f) _

/-- The references of the areas of a space that goes are those that are missing. -/
theorem Inv.removeSpace_holder (h : Inv m s) (hroot : s.spaces root = some space)
    (refs : Nat → Nat) : Finitely (holder { s with
      spaces := update s.spaces root none, fileRefs := refs }) ∧
    ∀ f, count s.holder f = count (holder { s with
      spaces := update s.spaces root none, fileRefs := refs }) f + count (fileOf space.vmas) f := by
  have hback : s.spaces = update (update s.spaces root none) root (some space) := by
    rw [update_idem, ← hroot, update_eq_self]
  have hext := holder_extends (s := { s with
    spaces := update s.spaces root none, fileRefs := refs }) (t := s)
    (update_self ..) hback rfl
  have hfin : Finitely (holder { s with
      spaces := update s.spaces root none, fileRefs := refs }) := by
    refine h.held.subset (fun o ho => ?_)
    show s.holder o ≠ none
    have ho' : holder { s with
      spaces := update s.spaces root none, fileRefs := refs } o ≠ none := ho
    cases o with
    | page => exact ho'
    | area root' =>
      have hne : root' ≠ root := by
        intro heq
        exact ho' (by simp [holder, heq])
      rwa [hext.outside _ (fun x hx => hne (Holder.area.inj hx).1)]
  exact ⟨hfin, count_extend hext hfin (fileOf_finitely (h.areas root space hroot))⟩

theorem Inv.removeSpace {refs : Nat → Nat} (h : Inv m s) (hroot : s.spaces root = some space)
    (hleaves : ∀ page, space.leaves page = none)
    (hrefs : ∀ f, refs f = s.fileRefs f - count (fileOf space.vmas) f) :
    Inv m { s with spaces := update s.spaces root none, fileRefs := refs } := by
  have hholder := h.removeSpace_holder hroot refs
  refine h.rehoused (owner_update hroot rfl rfl (fun page => (congrArg _ (hleaves page)).symm))
    (fun root' sp hsp => h.housed (update_none_some hsp).2) hholder.1 (fun f => ?_)
  have hfiles := h.files f
  rw [hholder.2 f] at hfiles
  rw [hrefs]
  omega

end Space

/-- The bytes of frames and the frames that nobody owns do not matter. -/
theorem Inv.unowned {memory : Nat → Nat → UInt8} {marks : Nat → Bool} (h : Inv m s)
    (hexact : Exact s.owner s.refcount marks) :
    Inv m { s with allocated := marks, memory := memory } := by
  refine ⟨hexact, h.untracked, entries_congr h rfl (fun _ _ => rfl), h.distinct, h.areas, ?_,
    h.lone, h.held, h.files⟩
  intro root space page leaf hspace hleaf
  exact LeafOk.congr (h.leaves root space page leaf hspace hleaf) Iff.rfl rfl

/-- Each effect keeps the invariant. -/
theorem Effect.inv (h : Inv m s) (he : Effect m s t) : Inv m t := by
  cases he with
  | mapFresh hvac hback hphys hfree => exact h.mapFresh hvac hback hphys hfree
  | mapShared hvac hback hleaf hcached hframe hro hro' hinc =>
    exact h.mapShared hvac hback hleaf hcached hframe hro hro' hinc
  | mapCached hvac hback hk hframe hro hretain => exact h.mapCached hvac hback hk hframe hro hretain
  | mapNew hvac hback hphys hfree hro hpublish hretain =>
    exact h.mapNew hvac hback hphys hfree hro (mappedNew hvac.spaceAt hpublish hretain)
  | drop hleaf hcached => exact h.drop hleaf hcached
  | dropCached hleaf hcached => exact h.dropCached hleaf hcached
  | split hleaf hcached hvac hback hphys hfree =>
    exact (h.drop hleaf hcached).mapFresh hvac hback hphys hfree
  | retag hspace hretags => exact h.retag hspace hretags
  | openArea hspace hadded hallowed hback hfile hentries hcount hcursor =>
    exact h.openArea hspace hadded hallowed hback hfile hentries hcount hcursor
  | newSpace hroot hok hleaves hrefs => exact h.newSpace hroot hok hleaves hrefs
  | removeSpace hroot hleaves hrefs => exact h.removeSpace hroot hleaves hrefs
  | touch => exact h.unowned h.exact
  | leak _ hfree => exact h.unowned (h.exact.remark (h.exact.not_owned hfree) true)

end BigOS.Proc
