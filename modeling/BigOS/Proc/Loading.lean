/-
  BigOS.Proc.Loading — the loaders, as effects.

  A loader makes a space, adds the areas of the image, maps the pages of the segments and
  the first page of the stack.  Each part is a sequence of effects on the new space alone;
  when one of them fails, the space is torn down.  The frame of the stack page is taken
  before the areas of the stack are there: when they cannot be added, the frame is
  forgotten, and this is the one leak.

  Main results:
    • `addSegmentVmas_effects`, `mapSegments_effects`, `mapInitialStack_effects`,
    • `loadSpace_effects`, `createProcess_effects`, `execCurrentFromElfImage_effects`.
-/
import BigOS.Proc.Spaces

namespace BigOS.Proc

open BigOS.Lib BigOS.Mm Function Proc.System List
open BigOS.Mm.Paging (PageAttr)

variable {entry : VmaEntry} {s t : System} {page : Nat}

/-! ## §1. Areas. -/

section Areas

variable {m : Mode} {u : System} {root : Nat} {space : AddressSpace}

/-- The areas of a root stay, and others may come. -/
def Grows (root : Nat) (s t : System) : Prop :=
  ∀ space, s.spaces root = some space → ∃ space', t.spaces root = some space' ∧
    space'.layout = space.layout ∧
      ∀ i entry, space.vmas.entries i = some entry → space'.vmas.entries i = some entry

theorem Grows.refl (root : Nat) (s : System) : Grows root s s :=
  fun space hspace => ⟨space, hspace, rfl, fun _ _ hi => hi⟩

theorem Grows.trans (h1 : Grows root s t) (h2 : Grows root t u) : Grows root s u := by
  intro space hspace
  obtain ⟨mid, hmid, hlayout, hkeeps⟩ := h1 space hspace
  obtain ⟨last, hlast, hlayout', hkeeps'⟩ := h2 mid hmid
  exact ⟨last, hlast, hlayout'.trans hlayout, fun i e hi => hkeeps' i e (hkeeps i e hi)⟩

/-- An area that was added to the space of a root. -/
structure AreaAdded (s t : System) (root : Nat) (space : AddressSpace) (entry : VmaEntry)
    (vmas : VmaCollection) (i : Nat) : Prop where
  added : Added space.vmas vmas i entry
  allowed : runtimeVmaAllowed space.layout entry
  spaceAt : t.spaces root = some { space with vmas := vmas }

theorem AreaAdded.grows {vmas : VmaCollection} {i : Nat} (h : AreaAdded s t root space entry vmas i)
    (hspace : s.spaces root = some space) : Grows root s t := by
  intro sp hsp
  rw [hspace] at hsp
  cases hsp
  exact ⟨_, h.spaceAt, rfl, fun _ _ hj => h.added.keeps hj⟩

theorem addProcessVma_some (hspace : s.spaces root = some space)
    (h : s.addProcessVma root entry = some t) :
    ∃ vmas i, internalAddProcessVma space.layout space.vmas entry = some vmas ∧
      t = s.modifySpace root (fun space => { space with vmas := vmas }) ∧
      AreaAdded s t root space entry vmas i := by
  unfold addProcessVma at h
  rw [hspace] at h
  rw [Option.map_eq_some_iff] at h
  obtain ⟨vmas, hadd, rfl⟩ := h
  have hadd' := hadd
  unfold internalAddProcessVma at hadd
  split at hadd
  · rename_i hallowed
    obtain ⟨i, hadded⟩ := internalAddVma_added hadd
    refine ⟨vmas, i, hadd', rfl, hadded, hallowed, ?_⟩
    rw [modifySpace_eq hspace]
    exact update_self ..
  · cases hadd

theorem addProcessVma_effect (h : Inv m s) (hfree : m.hold root = .free)
    (hspace : s.spaces root = some space) (hback : entry.backing ≠ .fileBacked)
    (hadd : s.addProcessVma root entry = some t) : Effect m s t := by
  obtain ⟨vmas, i, hvmas, rfl, _⟩ := addProcessVma_some hspace hadd
  exact h.addArea hfree hspace hvmas hback rfl rfl rfl rfl (.inl rfl)

/-- An area has a file exactly when a file backs it. -/
def Filed (entry : VmaEntry) : Prop := entry.backing = .fileBacked ↔ entry.fileBacking.isSome

theorem addSegmentVma_effect (h : Inv m s) (hfree : m.hold root = .free)
    (hspace : s.spaces root = some space) (hfiled : Filed entry)
    (hadd : s.addSegmentVma root entry = some t) :
    Effect m s t ∧ ∃ vmas i, AreaAdded s t root space entry vmas i := by
  unfold addSegmentVma at hadd
  cases hfile : entry.fileBacking with
  | none =>
    rw [hfile] at hadd
    have hback : entry.backing ≠ .fileBacked := by
      intro hb
      have hsome := hfiled.mp hb
      rw [hfile] at hsome
      cases hsome
    obtain ⟨vmas, i, _, _, harea⟩ := addProcessVma_some hspace hadd
    exact ⟨addProcessVma_effect h hfree hspace hback hadd, vmas, i, harea⟩
  | some file =>
    rw [hfile] at hadd
    have hback : entry.backing = .fileBacked := hfiled.mpr (by rw [hfile]; rfl)
    have hspace' : (s.retainFile file).spaces root = some space := hspace
    obtain ⟨vmas, i, hvmas, rfl, harea⟩ := addProcessVma_some hspace' hadd
    exact ⟨openArea_effect hfree hspace hvmas hback hfile rfl rfl rfl rfl, vmas, i, harea.added,
      harea.allowed, harea.spaceAt⟩

/-- The loop over the areas of segments. -/
theorem addSegmentVmas_effects (hfree : m.hold root = .free) (areas : List VmaEntry) :
    ∀ (s : System) (space : AddressSpace), Inv m s → s.spaces root = some space →
      (∀ entry ∈ areas, Filed entry) →
      Effects m s (addSegmentVmas root areas s).2 ∧ Grows root s (addSegmentVmas root areas s).2 ∧
        ((addSegmentVmas root areas s).1 → ∀ entry ∈ areas, ∃ space' i,
          (addSegmentVmas root areas s).2.spaces root = some space' ∧
            space'.vmas.entries i = some entry) := by
  induction areas with
  | nil =>
    intro s space _ _ _
    exact ⟨.refl, Grows.refl root s, fun _ _ hmem => absurd hmem (by simp)⟩
  | cons entry rest ih =>
    intro s space h hspace hfiled
    unfold addSegmentVmas
    cases hadd : s.addSegmentVma root entry with
    | none => exact ⟨.refl, Grows.refl root s, nofun⟩
    | some next =>
      obtain ⟨heff, vmas, i, harea⟩ := addSegmentVma_effect h hfree hspace
        (hfiled entry mem_cons_self) hadd
      obtain ⟨hrest, hgrows, hall⟩ := ih next _ (heff.inv h) harea.spaceAt
        (fun e he => hfiled e (mem_cons_of_mem _ he))
      refine ⟨.head heff hrest, (harea.grows hspace).trans hgrows, fun hok e he => ?_⟩
      rcases mem_cons.mp he with heq | hlater
      · subst heq
        obtain ⟨space', hspace', _, hkeeps⟩ := hgrows _ harea.spaceAt
        exact ⟨space', i, hspace', hkeeps i e harea.added.self⟩
      · exact hall hok e hlater

theorem addHeap_effects (heapBase : Nat) (layout : UserRuntimeLayout) (h : Inv m s)
    (hfree : m.hold root = .free) (hspace : s.spaces root = some space) :
    Effects m s (s.addHeap root heapBase layout).2 ∧
      Grows root s (s.addHeap root heapBase layout).2 := by
  unfold addHeap
  set bounds : AddressSpace → AddressSpace := fun space => { space with vmas :=
    { space.vmas with
      heapBase := heapBase
      heapBreak := heapBase
      heapLimit := layout.heap.base + layout.heap.len } }
  have hok := h.areas root space hspace
  have hbounds := h.retag_areas hfree hspace (f := bounds) rfl rfl
    (hok.congr rfl rfl hok.cursor) (fun _ _ _ => rfl) (fun _ => rfl)
  have hspace' := modifySpace_root hspace bounds
  have hgrows : Grows root s (s.modifySpace root bounds) := by
    intro sp hsp
    rw [hspace] at hsp
    cases hsp
    exact ⟨_, hspace', rfl, fun _ _ hi => hi⟩
  dsimp only
  rcases hadd : addProcessVma _ root (heapVma heapBase (layout.heap.base + layout.heap.len)) with
    _ | next
  · exact ⟨.single hbounds, hgrows⟩
  · obtain ⟨vmas, i, _, _, harea⟩ := addProcessVma_some hspace' hadd
    have hback : (heapVma heapBase (layout.heap.base + layout.heap.len)).backing ≠ .fileBacked :=
      nofun
    exact ⟨.tail (.single hbounds) (addProcessVma_effect (hbounds.inv h) hfree hspace' hback hadd),
      hgrows.trans (harea.grows hspace')⟩

end Areas

/-! ## §2. Pages of segments. -/

section Segments

variable {m : Mode} {root phys : Nat} {vma : VmaEntry}

/-- A frame that was filled is mapped. -/
theorem mapClaimed_effects {attr : PageAttr} {ok : Bool} {bytes : Nat → UInt8}
    {space : AddressSpace} (hfree : m.hold root = .free)
    (hspace : s.spaces root = some space) (hvma : vmaAt space.vmas page = some vma)
    (hback : vma.backing ≠ .fileBacked) (hphys : pageAligned phys)
    (hmark : s.allocated phys = false)
    (hmap : (s.claimFrame phys bytes).mapUserPageForProcess root page phys attr ok = some t) :
    Effects m s t ∧ t.spaces = (s.setLeaf root page (some ⟨phys, attr⟩)).spaces := by
  have hspace' : (s.claimFrame phys bytes).spaces root = some space := hspace
  obtain ⟨hvac, _, rfl⟩ := mapUserPage_some hfree hspace' hvma hmap
  exact ⟨.single (.mapFresh (hvac.congr rfl) hback hphys hmark), rfl⟩

theorem sameKinds_setLeaf {l : Option Leaf} (h : t.spaces = (s.setLeaf root page l).spaces) :
    SameKinds root s t := by
  intro space hspace
  refine ⟨{ space with leaves := update space.leaves page l }, ?_, rfl, rfl, fun _ => rfl⟩
  rw [h]
  exact setLeaf_root hspace page l

/-- One page of a segment that is copied. -/
theorem mapSegmentPage_effects (source : SegmentSource) (env : LoadEnv) (h : Inv m s)
    (hfree : m.hold root = .free) {space : AddressSpace} (hspace : s.spaces root = some space)
    {kind : VmaEntry} (hkind : kindAt space.vmas page = some kind)
    (hback : kind.backing ≠ .fileBacked) :
    Maps m root s (s.mapSegmentPage root source page env).2 := by
  obtain ⟨vma, hvma, rfl⟩ := kindAt_some.mp hkind
  unfold mapSegmentPage
  rcases halloc : s.allocUserFrame (env.frame page) with _ | ⟨phys, taken⟩
  · exact .refl
  obtain ⟨_, hphys, hmark, rfl⟩ := allocUserFrame_some halloc
  dsimp only
  rcases hfill : fillFrame _ phys (segmentPage source page) with _ | filled
  · rw [freeUserFrame_update hmark s.memory]
    exact .refl
  obtain ⟨_, rfl⟩ := fillFrame_some hfill
  dsimp only
  rcases hmap : mapUserPageForProcess _ root page phys source.segment.attr (env.mapOk page) with
    _ | mapped
  · exact ⟨h.unclaim hmark _, .of_spaces rfl⟩
  · obtain ⟨heff, hspaces⟩ := mapClaimed_effects hfree hspace hvma hback hphys hmark hmap
    exact ⟨heff, sameKinds_setLeaf hspaces⟩

/-- One page of a segment that is mapped from the file. -/
theorem mapSharedPage_effects (env : LoadEnv) (h : Inv m s) (hfree : m.hold root = .free) :
    Maps m root s (s.mapSharedPage root page env).2 := by
  unfold mapSharedPage
  rcases hspace : s.spaces root with _ | space
  · exact .refl
  dsimp only
  rcases hfound : (internalFindVma space.vmas page).bind fun i =>
      (space.vmas.entries i).map fun vma => (i, vma) with _ | ⟨i, vma⟩
  · exact .refl
  rw [Option.bind_eq_some_iff] at hfound
  obtain ⟨j, hfind, hj⟩ := hfound
  rw [Option.map_eq_some_iff] at hj
  obtain ⟨e, he, heq⟩ := hj
  cases heq
  obtain ⟨_, _, other, hother, hlo, hhi⟩ := internalFindVma_some hfind
  rw [he] at hother
  cases hother
  have hstep := materializeFileBackedPage_effects (env.fault page) ⟨h, hfree, hspace, he, hlo, hhi⟩
  dsimp only
  split
  all_goals
    rename_i hresult
    rw [hresult] at hstep
    exact hstep

/-- The pages that are copied lie in areas that no file backs. -/
def CopiedOk (root : Nat) (s : System) (source : SegmentSource) : Prop :=
  source.shared = false → ∀ space page, s.spaces root = some space →
    source.segment.mapBase ≤ page → page < source.segment.mapBase + source.segment.mapLen →
      ∃ kind, kindAt space.vmas page = some kind ∧ kind.backing ≠ .fileBacked

theorem CopiedOk.mono {source : SegmentSource} (h : CopiedOk root s source)
    (hroot : ∃ space, s.spaces root = some space) (hkinds : SameKinds root s t) :
    CopiedOk root t source := by
  intro hshared space' page hspace' hlo hhi
  obtain ⟨space, hspace⟩ := hroot
  obtain ⟨sp, hsp, _, _, hsame⟩ := hkinds space hspace
  rw [hspace'] at hsp
  cases hsp
  rw [hsame page]
  exact h hshared space page hspace hlo hhi

theorem SameKinds.spaceAt (h : SameKinds root s t) (hroot : ∃ space, s.spaces root = some space) :
    ∃ space, t.spaces root = some space := by
  obtain ⟨space, hspace⟩ := hroot
  obtain ⟨space', hspace', _⟩ := h space hspace
  exact ⟨space', hspace'⟩

theorem pagesIn_bounds {start stop : Nat} (h : page ∈ pagesIn start stop) :
    start ≤ page ∧ page < stop := by
  have hsize : PAGE_SIZE = 4096 := rfl
  unfold pagesIn at h
  simp only [mem_map, mem_range, hsize] at h
  omega

/-- `map_segment`. -/
theorem mapSegment_effects (source : SegmentSource) (env : LoadEnv) (hfree : m.hold root = .free)
    (pages : List Nat) :
    ∀ s, Inv m s → (∃ space, s.spaces root = some space) → CopiedOk root s source →
      (∀ page ∈ pages, source.segment.mapBase ≤ page ∧
        page < source.segment.mapBase + source.segment.mapLen) →
      Maps m root s (mapSegment root source env pages s).2 := by
  induction pages with
  | nil =>
    intro s _ _ _ _
    exact .refl
  | cons page rest ih =>
    intro s h hroot hcopied hpages
    have hin := hpages page mem_cons_self
    unfold mapSegment
    have hstep : Maps m root s (if source.shared then s.mapSharedPage root page env
        else s.mapSegmentPage root source page env).2 := by
      split
      · exact mapSharedPage_effects env h hfree
      rename_i hshared
      obtain ⟨space, hspace⟩ := hroot
      obtain ⟨kind, hkind, hback⟩ := hcopied (by simpa using hshared) space page hspace hin.1 hin.2
      exact mapSegmentPage_effects source env h hfree hspace hkind hback
    split
    · rename_i e next hresult
      rw [hresult] at hstep
      exact hstep
    · rename_i next hresult
      rw [hresult] at hstep
      exact hstep.trans (ih next (hstep.effects.inv h) (hstep.kinds.spaceAt hroot)
        (hcopied.mono hroot hstep.kinds) (fun p hp => hpages p (mem_cons_of_mem _ hp)))

/-- The loop over the segments. -/
theorem mapSegments_effects (env : LoadEnv) (hfree : m.hold root = .free)
    (sources : List SegmentSource) : ∀ s, Inv m s → (∃ space, s.spaces root = some space) →
      (∀ source ∈ sources, CopiedOk root s source) →
      Maps m root s (mapSegments root env sources s).2 := by
  induction sources with
  | nil =>
    intro s _ _ _
    exact .refl
  | cons source rest ih =>
    intro s h hroot hsources
    have hsource := hsources source mem_cons_self
    unfold mapSegments
    dsimp only
    have hstep := mapSegment_effects source env hfree (pagesIn source.segment.mapBase
      (source.segment.mapBase + source.segment.mapLen)) s h hroot hsource
      (fun page hpage => pagesIn_bounds hpage)
    split
    · rename_i e next hresult
      rw [hresult] at hstep
      exact hstep
    · rename_i next hresult
      rw [hresult] at hstep
      exact hstep.trans (ih next (hstep.effects.inv h) (hstep.kinds.spaceAt hroot)
        (fun src hsrc => (hsources src (mem_cons_of_mem _ hsrc)).mono hroot hstep.kinds))

end Segments

/-! ## §3. The stack. -/

section Stack

variable {m : Mode} {root : Nat} {space : AddressSpace}

/-- The areas of the stack can be added. -/
def StackFits (s : System) (root : Nat) : Prop :=
  ∃ guarded stacked, s.addProcessVma root stackGuardVma = some guarded ∧
    guarded.addProcessVma root stackVma = some stacked

/-- Areas do not depend on which frames are allocated. -/
theorem addProcessVma_marks (marks : Nat → Bool) (entry : VmaEntry) :
    addProcessVma { s with allocated := marks } root entry =
      (s.addProcessVma root entry).map (fun t => { t with allocated := marks }) := by
  unfold addProcessVma
  cases hspace : s.spaces root with
  | none => rfl
  | some space =>
    dsimp only
    cases internalAddProcessVma space.layout space.vmas entry with
    | none => rfl
    | some => rfl

theorem addProcessVma_allocated (h : s.addProcessVma root entry = some t) :
    t.allocated = s.allocated := by
  unfold addProcessVma at h
  split at h
  · cases h
  · rw [Option.map_eq_some_iff] at h
    obtain ⟨vmas, _, rfl⟩ := h
    rfl

/-- The first page of the stack, once its areas are there. -/
theorem mapStackPage_effects (stack : Option (Nat → UInt8))
    (env : LoadEnv) (h : Inv m s) (hfree : m.hold root = .free)
    (hspace : s.spaces root = some space) (hvma : vmaAt space.vmas stackBase = some vma)
    (hback : vma.backing ≠ .fileBacked) (hphys : pageAligned phys)
    (hmark : s.allocated phys = false) : Effects m s (mapStackPage { s with
      allocated := update s.allocated phys true } root (some phys) stack env).2 := by
  unfold mapStackPage
  dsimp only
  rcases hfill : stack.bind (fillFrame _ phys) with _ | filled
  · rw [freeUserFrame_update hmark s.memory]
  rw [Option.bind_eq_some_iff] at hfill
  obtain ⟨bytes, _, hfilled⟩ := hfill
  obtain ⟨_, rfl⟩ := fillFrame_some hfilled
  dsimp only
  rcases hmap : mapUserPageForProcess _ root stackBase phys PageAttr.USER_DATA
      (env.mapOk stackBase) with _ | mapped
  · exact h.unclaim hmark bytes
  · exact (mapClaimed_effects hfree hspace hvma hback hphys hmark hmap).1

/-- The stack is added; its frame is lost where its areas do not fit. -/
theorem mapInitialStack_effects (stack : Option (Nat → UInt8)) (env : LoadEnv) (h : Inv m s)
    (hfree : m.hold root = .free) (hspace : s.spaces root = some space)
    (hfits : m.tight → StackFits s root) : Effects m s (s.mapInitialStack root stack env).2 := by
  have hguardBack : stackGuardVma.backing ≠ .fileBacked := nofun
  have hstackBack : stackVma.backing ≠ .fileBacked := nofun
  -- A frame that is forgotten is one that no area of the stack was there for.
  have hleak : ∀ (t : System) (phys : Nat), t.allocated phys = false → ¬StackFits s root →
      Effect m t { t with allocated := update t.allocated phys true } := by
    intro t phys hmark hnot
    have hloose : m.tight = false := by
      cases htight : m.tight with
      | false => rfl
      | true => exact absurd (hfits htight) hnot
    exact .leak hloose hmark (fun _ _ _ _ => rfl)
  unfold mapInitialStack
  rcases halloc : s.allocUserFrame (env.frame stackBase) with _ | ⟨phys, taken⟩
  · simp only [Option.map_none, Option.getD_none]
    rcases hguard : s.addProcessVma root stackGuardVma with _ | guarded
    · exact .refl
    dsimp only
    have hfirst := addProcessVma_effect h hfree hspace hguardBack hguard
    obtain ⟨vmas, i, _, _, harea⟩ := addProcessVma_some hspace hguard
    rcases hstack : guarded.addProcessVma root stackVma with _ | stacked
    · exact .single hfirst
    · exact .tail (.single hfirst) (addProcessVma_effect (hfirst.inv h) hfree harea.spaceAt
        hstackBack hstack)
  obtain ⟨_, hphys, hmark, rfl⟩ := allocUserFrame_some halloc
  simp only [Option.map_some, Option.getD_some]
  rw [addProcessVma_marks]
  rcases hguard : s.addProcessVma root stackGuardVma with _ | guarded
  · refine .single (hleak s phys hmark (fun hfit => ?_))
    obtain ⟨guarded, _, hg, _⟩ := hfit
    rw [hguard] at hg
    cases hg
  simp only [Option.map_some]
  have hfirst := addProcessVma_effect h hfree hspace hguardBack hguard
  have hmarks := addProcessVma_allocated hguard
  obtain ⟨vmas, i, _, _, harea⟩ := addProcessVma_some hspace hguard
  rw [addProcessVma_marks]
  rcases hstack : guarded.addProcessVma root stackVma with _ | stacked
  · refine .tail (.single hfirst) ?_
    show Effect m guarded { guarded with
      allocated := update s.allocated phys true }
    rw [← hmarks] at hmark ⊢
    refine hleak guarded phys hmark (fun hfit => ?_)
    obtain ⟨guarded', stacked, hg, hs⟩ := hfit
    rw [hguard] at hg
    cases hg
    rw [hstack] at hs
    cases hs
  have hinv := hfirst.inv h
  have hsecond := addProcessVma_effect hinv hfree harea.spaceAt hstackBack hstack
  have hmarks' := addProcessVma_allocated hstack
  obtain ⟨vmas', j, _, _, harea'⟩ := addProcessVma_some harea.spaceAt hstack
  refine Effects.andThen h (.tail (.single hfirst) hsecond) (fun hinv' => ?_)
  have hat : vmaAt vmas' stackBase = some stackVma := by
    rw [harea'.added.vmaAt_eq (hinv.areas root _ harea.spaceAt) harea'.allowed]
    exact if_pos (by decide)
  have hsame : s.allocated = stacked.allocated := (hmarks'.trans hmarks).symm
  rw [hsame] at hmark ⊢
  exact mapStackPage_effects stack env hinv' hfree harea'.spaceAt hat hstackBack hphys hmark

end Stack

/-! ## §4. The loaders. -/

section Load

variable {m : Mode} {root heapBase : Nat} {sources : List SegmentSource} {areas : List VmaEntry}

/-- Every segment that is copied has an area of its own that no file backs. -/
structure Matched (areas : List VmaEntry) (sources : List SegmentSource) : Prop where
  filed : ∀ entry ∈ areas, Filed entry
  copied : ∀ source ∈ sources, source.shared = false → ∃ entry ∈ areas,
    entry.start = source.segment.mapBase ∧
      entry.stop = source.segment.mapBase + source.segment.mapLen ∧ entry.backing ≠ .fileBacked

theorem newSpace_effect (hfree : m.hold root = .free) (hroot : s.spaces root = none)
    {layout : UserRuntimeLayout} (hlayout : layout.Initialised) :
    Effect m s (s.newSpace root layout) := by
  refine .newSpace hroot (vmasOk_init hlayout) (fun _ => rfl) (fun f => ?_) hfree
  have hzero : RefCount.count (fileOf internalInitVmas) f = 0 := by
    rw [count_backingFiles (vmasOk_init hlayout)]
    rfl
  exact (congrArg (s.fileRefs f + ·) hzero).symm

/-- The state in which the stack is added, if the loader comes that far. -/
def System.beforeStack (s : System) (root heapBase : Nat) (layout : UserRuntimeLayout)
    (areas : List VmaEntry) (sources : List SegmentSource) (env : LoadEnv) : Option System :=
  match addSegmentVmas root areas (s.newSpace root layout) with
  | (false, _) => none
  | (true, s) =>
    match s.addHeap root heapBase layout with
    | (false, _) => none
    | (true, s) =>
      match mapSegments root env sources s with
      | (some _, _) => none
      | (none, s) => some s

/-- From a fresh root to the last step that can fail. -/
theorem buildSpace_effects {layout : UserRuntimeLayout}
    (stack : Option (Nat → UInt8)) (env : LoadEnv) (h : Inv m s)
    (hfree : m.hold root = .free) (hroot : s.spaces root = none) (hlayout : layout.Initialised)
    (hmatched : Matched areas sources) (hfits : m.tight → ∀ t,
      s.beforeStack root heapBase layout areas sources env = some t → StackFits t root) :
    Effects m s (s.buildSpace root heapBase layout areas sources stack env).2 := by
  unfold buildSpace
  unfold beforeStack at hfits
  have hnew := newSpace_effect hfree hroot hlayout
  have hinv := hnew.inv h
  have hspace : (s.newSpace root layout).spaces root =
      some ⟨layout, internalInitVmas, fun _ => none, true⟩ := update_self ..
  have hareas := addSegmentVmas_effects hfree areas _ _ hinv hspace hmatched.filed
  rcases hadded : addSegmentVmas root areas (s.newSpace root layout) with ⟨_ | _, t1⟩
  all_goals
    rw [hadded] at hareas hfits
    obtain ⟨heff1, hgrows1, hall⟩ := hareas
  · exact .head hnew heff1
  dsimp only at hfits heff1 hgrows1 hall ⊢
  obtain ⟨space1, hspace1, _⟩ := hgrows1 _ hspace
  have hinv1 := heff1.inv hinv
  have hheap := addHeap_effects heapBase layout hinv1 hfree hspace1
  rcases hheaped : t1.addHeap root heapBase layout with ⟨_ | _, t2⟩
  all_goals
    rw [hheaped] at hheap hfits
    obtain ⟨heff2, hgrows2⟩ := hheap
  · exact .head hnew (heff1.trans heff2)
  dsimp only at hfits heff2 hgrows2 ⊢
  obtain ⟨space2, hspace2, _, hkeeps2⟩ := hgrows2 _ hspace1
  have hinv2 := heff2.inv hinv1
  -- The areas of the segments are there when their pages are mapped.
  have hcopied : ∀ source ∈ sources, CopiedOk root t2 source := by
    intro source hsource hshared sp page hsp hlo hhi
    rw [hspace2] at hsp
    cases hsp
    obtain ⟨entry, hentry, hstart, hstop, hback⟩ := hmatched.copied source hsource hshared
    obtain ⟨sp1, i, hsp1, hi⟩ := hall rfl entry hentry
    rw [hspace1] at hsp1
    cases hsp1
    have hat : vmaAt space2.vmas page = some entry :=
      (vmaAt_iff (hinv2.areas root space2 hspace2)).mpr ⟨i, hkeeps2 i entry hi, by omega, by omega⟩
    exact ⟨entry.kind, kindAt_of hat, hback⟩
  have hsegments := mapSegments_effects env hfree sources t2 hinv2 ⟨space2, hspace2⟩ hcopied
  rcases hmapped : mapSegments root env sources t2 with ⟨_ | e, t3⟩
  all_goals
    rw [hmapped] at hsegments hfits
    obtain ⟨heff3, hkinds3⟩ := hsegments
    dsimp only at hfits heff3 hkinds3 ⊢
  · obtain ⟨space3, hspace3⟩ := hkinds3.spaceAt ⟨space2, hspace2⟩
    have hstack := mapInitialStack_effects stack env (heff3.inv hinv2) hfree hspace3
      (fun ht => hfits ht t3 rfl)
    have hall3 : Effects m s (t3.mapInitialStack root stack env).2 :=
      .head hnew (((heff1.trans heff2).trans heff3).trans hstack)
    rcases hstacked : t3.mapInitialStack root stack env with ⟨_ | e, t4⟩
    all_goals rw [hstacked] at hall3
    · dsimp only
      split <;> exact hall3
    · exact hall3
  · exact .head hnew ((heff1.trans heff2).trans heff3)

/-- A loader leaves a space, or nothing. -/
theorem loadSpace_effects {layout : Option UserRuntimeLayout} (stack : Option (Nat → UInt8))
    (env : LoadEnv) (h : Inv m s) (hfree : m.Free root)
    (hlayout : ∀ layout', layout = some layout' → layout'.Initialised)
    (hmatched : Matched areas sources) (hfits : m.tight → ∀ layout' t, layout = some layout' →
      s.beforeStack root heapBase layout' areas sources env = some t → StackFits t root) :
    Effects m s (s.loadSpace root heapBase layout areas sources stack env).2 := by
  unfold loadSpace
  split
  · exact .refl
  rename_i hcond
  have hroot : s.spaces root = none := by
    simp only [Bool.or_eq_true, not_or, Bool.not_eq_true, Option.isSome_eq_false_iff,
      Option.isNone_iff_eq_none] at hcond
    exact hcond.2
  split
  · exact .refl
  rcases layout with _ | layout'
  · exact .refl
  have hbuild := buildSpace_effects stack env h hfree.hold hroot (hlayout _ rfl) hmatched
    (fun ht t hbefore => hfits ht layout' t rfl hbefore)
  dsimp only
  rcases hbuilt : s.buildSpace root heapBase layout' areas sources stack env with ⟨_ | e, t⟩
  all_goals rw [hbuilt] at hbuild
  · exact hbuild
  · exact Effects.andThen h hbuild (fun hinv => (destroySpace_effects hinv hfree).1)

theorem filed_segmentVma (elfFile : Option Nat) (segment : LoadSegment) :
    Filed (segmentVma elfFile segment) := by
  unfold Filed segmentVma
  split
  · rename_i hshared
    unfold elfSegmentSharedReadonlyCompatible at hshared
    cases elfFile with
    | none => simp at hshared
    | some => simp
  · simp [copiedVma]

theorem matched_static (elfFile : Option Nat) (image : ElfImage) (segments : List LoadSegment) :
    Matched (segments.map (segmentVma elfFile)) (segments.map fun segment =>
      ⟨segment, image, elfSegmentSharedReadonlyCompatible segment elfFile⟩) := by
  constructor
  · intro entry hentry
    rw [mem_map] at hentry
    obtain ⟨segment, _, rfl⟩ := hentry
    exact filed_segmentVma elfFile segment
  · intro source hsource hshared
    rw [mem_map] at hsource
    obtain ⟨segment, hmem, rfl⟩ := hsource
    have hcopied : segmentVma elfFile segment = copiedVma (segmentPurpose segment) segment := by
      unfold segmentVma
      exact if_neg (by simpa using hshared)
    refine ⟨segmentVma elfFile segment, mem_map.mpr ⟨segment, hmem, rfl⟩, ?_⟩
    rw [hcopied]
    exact ⟨rfl, rfl, nofun⟩

theorem matched_dynamic (image interpImage : ElfImage)
    (segments interpSegments : List LoadSegment) :
    Matched (segments.map (fun segment => copiedVma (segmentPurpose segment) segment) ++
        interpSegments.map (copiedVma .dynInterp))
      (segments.map (⟨·, image, false⟩) ++ interpSegments.map (⟨·, interpImage, false⟩)) := by
  constructor
  · intro entry hentry
    rw [mem_append, mem_map, mem_map] at hentry
    rcases hentry with ⟨segment, _, rfl⟩ | ⟨segment, _, rfl⟩
    · simp [Filed, copiedVma]
    · simp [Filed, copiedVma]
  · intro source hsource _
    rw [mem_append, mem_map, mem_map] at hsource
    rcases hsource with ⟨segment, hmem, rfl⟩ | ⟨segment, hmem, rfl⟩
    · exact ⟨copiedVma (segmentPurpose segment) segment, mem_append_left _
        (mem_map.mpr ⟨segment, hmem, rfl⟩), rfl, rfl, nofun⟩
    · exact ⟨copiedVma .dynInterp segment, mem_append_right _
        (mem_map.mpr ⟨segment, hmem, rfl⟩), rfl, rfl, nofun⟩

/-- What the static loader needs for its stack, if no frame is to be lost. -/
def StaticFits (m : Mode) (s : System) (root : Nat) (image : ElfImage) (elfFile : Option Nat)
    (env : LoadEnv) : Prop :=
  m.tight → ∀ segments entry layout t, validateElf image = .ok (segments, entry) →
    ((pageUp (imageHigh segments)).bind fun heapBase =>
      initRuntimeLayout (imageLow segments) (imageHigh segments) heapBase false) = some layout →
    s.beforeStack root ((pageUp (imageHigh segments)).getD 0) layout
      (segments.map (segmentVma elfFile)) (segments.map fun segment =>
        ⟨segment, image, elfSegmentSharedReadonlyCompatible segment elfFile⟩) env = some t →
    StackFits t root

/-- `create_elf_user_process` of a static image. -/
theorem createElfUserProcess_effects (image : ElfImage) (args : ExecArgs) (elfFile : Option Nat)
    (env : LoadEnv) (h : Inv m s) (hfree : m.Free root)
    (hfits : StaticFits m s root image elfFile env) :
    Effects m s (s.createElfUserProcess root image args elfFile env).2 := by
  unfold createElfUserProcess
  rcases hvalid : validateElf image with e | ⟨segments, entry⟩
  · exact .refl
  have hload := loadSpace_effects ((copyExecArgsToStack stackBase args).map Prod.fst) env h hfree
    (fun _ => initialised_of_bind) (matched_static elfFile image segments)
    (fun ht layout t hlayout hbefore => hfits ht segments entry layout t hvalid hlayout hbefore)
  dsimp only
  split
  all_goals
    rename_i hresult
    rw [hresult] at hload
    exact hload

/-- What the dynamic loader needs for its stack, if no frame is to be lost. -/
def DynFits (m : Mode) (s : System) (root : Nat) (image : ElfImage)
    (interp : List UInt8 → Except UserElfLoadError ElfImage) (env : LoadEnv) : Prop :=
  m.tight → ∀ segments info path interpImage interpSegments interpInfo rest layout t,
    validateDynImage image USER_DYN_EXEC_BASE true = .ok (segments, info, some path) →
    interp path = .ok interpImage →
    validateDynImage interpImage USER_INTERP_BASE false = .ok (interpSegments, interpInfo, rest) →
    ((pageUp (imageHigh segments)).bind fun heapBase =>
      initRuntimeLayout (imageLow segments) (imageHigh segments) heapBase true) = some layout →
    s.beforeStack root ((pageUp (imageHigh segments)).getD 0) layout
      (segments.map (fun segment => copiedVma (segmentPurpose segment) segment) ++
        interpSegments.map (copiedVma .dynInterp))
      (segments.map (⟨·, image, false⟩) ++ interpSegments.map (⟨·, interpImage, false⟩)) env =
        some t → StackFits t root

/-- `create_dyn_user_process`. -/
theorem createDynUserProcess_effects (image : ElfImage) (args : ExecArgs)
    (interp : List UInt8 → Except UserElfLoadError ElfImage) (env : LoadEnv) (h : Inv m s)
    (hfree : m.Free root) (hfits : DynFits m s root image interp env) :
    Effects m s (s.createDynUserProcess root image args interp env).2 := by
  unfold createDynUserProcess
  rcases hvalid : validateDynImage image USER_DYN_EXEC_BASE true with e | ⟨segments, info, _ | path⟩
  · exact .refl
  · exact .refl
  dsimp only
  split
  · exact .refl
  rcases hinterp : interp path with e | interpImage
  · exact .refl
  dsimp only
  rcases hvalid' : validateDynImage interpImage USER_INTERP_BASE false with
    e | ⟨interpSegments, interpInfo, rest⟩
  · exact .refl
  have hload := loadSpace_effects ((copyExecArgsAndAuxvToStack stackBase args
    (auxv info interpInfo)).map Prod.fst) env h hfree (fun _ => initialised_of_bind)
    (matched_dynamic image interpImage segments interpSegments)
    (fun ht layout t hlayout hbefore => hfits ht segments info path interpImage
      interpSegments interpInfo rest layout t hvalid hinterp hvalid' hlayout hbefore)
  dsimp only
  split
  all_goals
    rename_i hresult
    rw [hresult] at hload
    exact hload

/-- What a loader needs for its stack, if no frame is to be lost. -/
structure ProgramFits (m : Mode) (s : System) (root : Nat) (program : Program) (env : LoadEnv) :
    Prop where
  static : StaticFits m s root program.image program.elfFile env
  dynamic : DynFits m s root program.image program.interp env

theorem ProgramFits.of_loose (htight : m.tight = false) (program : Program) (env : LoadEnv) :
    ProgramFits m s root program env := by
  have hno : ¬m.tight := by
    rw [htight]
    exact Bool.false_ne_true
  exact ⟨fun ht => absurd ht hno, fun ht => absurd ht hno⟩

/-- `create_elf_user_process`. -/
theorem createProcess_effects (program : Program) (env : LoadEnv) (h : Inv m s)
    (hfree : m.Free root) (hfits : ProgramFits m s root program env) :
    Effects m s (s.createProcess root program env).2 := by
  unfold createProcess
  split
  · exact createDynUserProcess_effects program.image program.args program.interp env h hfree
      hfits.dynamic
  · exact createElfUserProcess_effects program.image program.args program.elfFile env h hfree
      hfits.static

/-- `exec_current_from_elf_image`. -/
theorem execCurrentFromElfImage_effects {new : Nat} (program : Program) (env : ExecEnv)
    (h : Inv m s) (hfree : m.Free new) (hfreeOld : m.Free root)
    (hfits : ProgramFits m s new program env.load) :
    Effects m s (s.execCurrentFromElfImage root new program env).2 := by
  unfold execCurrentFromElfImage
  split
  · exact .refl
  split
  · exact .refl
  split
  · exact .refl
  split
  · exact .refl
  have hcreate := createProcess_effects program env.load h hfree hfits
  split
  · rename_i hresult
    rw [hresult] at hcreate
    exact hcreate
  · rename_i hresult
    rw [hresult] at hcreate
    exact Effects.andThen h hcreate (fun hinv => (destroySpace_effects hinv hfreeOld).1)

/-- One process of `reap_pending_processes`. -/
theorem reap_effects (h : Inv m s) (hfree : m.Free root) : Effects m s (s.reap root) := by
  unfold reap
  split
  · exact .refl
  split
  · exact .refl
  exact (destroySpace_effects h hfree).1

end Load

end BigOS.Proc
