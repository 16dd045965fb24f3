/-
  BigOS.Proc.Calls — the calls on areas, as effects.

  A call that maps adds an area where there is none; a call that unmaps takes the leaves
  of the range out and then the areas; a call that changes permissions gives the leaves
  of the range their new attributes and publishes the areas with the new permissions,
  which is one effect because neither fits the other half way.

  Main results:
    • `unmapPages_spec`, `protectPages_spec` — what the loops over pages leave,
    • `brkCurrent_effects`, `mapAnonymousCurrent_effects`, `unmapAnonymousCurrent_effects`,
      `mapFileCurrent_effects`, `dynMapCurrent_effects`,
    • `protectAnonymousCurrent_effects`, `dynProtectCurrent_effects` — with what the
      modes ask of them.
-/
import BigOS.Proc.Faults

namespace BigOS.Proc

open BigOS.Lib BigOS.Mm Function Proc.System Option
open BigOS.Mm.Paging (PageAttr)

variable {s : System} {space : AddressSpace} {page addr : Nat}

/-! ## §1. Pages of a range. -/

theorem mem_pagesIn (haddr : pageAligned addr) (stop page : Nat) :
    page ∈ pagesIn addr stop ↔ addr ≤ page ∧ page < stop ∧ pageAligned page := by
  have hsize : PAGE_SIZE = 4096 := rfl
  unfold pagesIn
  simp only [List.mem_map, List.mem_range, pageAligned, beq_iff_eq, hsize] at haddr ⊢
  constructor
  · intro h
    omega
  · intro h
    exact ⟨(page - addr) / 4096, by omega, by omega⟩

/-! ## §2. Leaves that go. -/

section Unmap

variable {m : Mode} {root : Nat}

/-- The leaves that are left when those of some pages are gone. -/
def withoutPages (pages : List Nat) (leaves : Nat → Option Leaf) : Nat → Option Leaf :=
  fun page => if page ∈ pages then none else leaves page

theorem withoutPages_cons (page : Nat) (rest : List Nat) (leaves : Nat → Option Leaf) :
    withoutPages rest (update leaves page none) = withoutPages (page :: rest) leaves := by
  funext p
  unfold withoutPages
  by_cases hp : p = page
  · subst hp
    simp
  · simp [hp]

theorem spaceAt_of {t : System} (h : t.spaces = update s.spaces root (some space)) :
    t.spaces root = some space := by
  rw [h]
  exact update_self ..

/-- Leaves that are not there. -/
theorem update_leaves_none (hspace : s.spaces root = some space)
    (hnone : space.leaves page = none) : s.spaces = update s.spaces root
      (some { space with leaves := update space.leaves page none }) := by
  have hsame : update space.leaves page none = space.leaves := update_eq_self_iff.mpr hnone.symm
  rw [hsame]
  show s.spaces = update s.spaces root (some space)
  rw [← hspace, update_eq_self]

/-- A walk over pages that takes leaves out: what each page does decides what is left. -/
theorem foldl_pages (step : System → Nat → System) (good : AddressSpace → Nat → Prop)
    (hstep : ∀ s space page, Inv m s → s.spaces root = some space → good space page →
      Effects m s (step s page) ∧ (step s page).spaces = update s.spaces root
        (some { space with leaves := update space.leaves page none }))
    (hgood : ∀ space p page, good space page →
      good { space with leaves := update space.leaves p none } page)
    (pages : List Nat) :
    ∀ s space, Inv m s → s.spaces root = some space → (∀ page ∈ pages, good space page) →
      Effects m s (pages.foldl step s) ∧ (pages.foldl step s).spaces = update s.spaces root
          (some { space with leaves := withoutPages pages space.leaves }) := by
  induction pages with
  | nil =>
    intro s space _ hspace _
    refine ⟨.refl, ?_⟩
    show s.spaces = update s.spaces root (some space)
    rw [← hspace, update_eq_self]
  | cons page rest ih =>
    intro s space h hspace hpages
    have hfirst := hstep s space page h hspace (hpages page List.mem_cons_self)
    have hrest := ih (step s page) _ (hfirst.1.inv h) (spaceAt_of hfirst.2)
      (fun p hp => hgood space page p (hpages p (List.mem_cons_of_mem _ hp)))
    refine ⟨hfirst.1.trans hrest.1, ?_⟩
    rw [List.foldl_cons, hrest.2, hfirst.2, update_idem]
    exact congrArg (fun leaves => update s.spaces root
      (some { space with leaves := leaves })) (withoutPages_cons page rest space.leaves)

section

variable (h : Inv m s) (hfree : m.hold root = .free) (hspace : s.spaces root = some space)

include h hfree hspace

/-- A leaf whose frame no file backs goes, if there is one. -/
theorem dropLeaf_effects (hkeeps : m.keeps root page = false)
    (hback : ∀ kind, kindAt space.vmas page = some kind → kind.backing = .fileBacked →
      pageAligned page → space.leaves page = none) :
    Effects m s (s.dropLeaf root page) ∧ (s.dropLeaf root page).spaces = update s.spaces root
      (some { space with leaves := update space.leaves page none }) := by
  unfold dropLeaf
  cases hat : s.leafAt root page with
  | none =>
    rw [leafAt_eq hspace] at hat
    exact ⟨.refl, update_leaves_none hspace hat⟩
  | some leaf =>
    obtain ⟨kind, hleafOk⟩ := h.leafOk hspace hat
    have hcached : ¬s.Cached leaf.frame := by
      intro hc
      have hnone := hback kind hleafOk.area (hleafOk.cached.mp hc) hleafOk.pageOk
      rw [leafAt_eq hspace, hnone] at hat
      cases hat
    refine ⟨.single (.drop hat hcached hkeeps hfree), ?_⟩
    dsimp only
    rw [frameRefDec_eq (s := s.setLeaf root page none) (h.untracked leaf.frame)]
    exact setLeaf_spaces hspace page none

theorem unmapAndFreeUserPage_effect (hkeeps : m.keeps root page = false)
    (hback : ∀ kind, kindAt space.vmas page = some kind → kind.backing ≠ .fileBacked) :
    Effects m s (s.unmapAndFreeUserPage root page) ∧
      (s.unmapAndFreeUserPage root page).spaces = update s.spaces root
        (some { space with leaves := update space.leaves page none }) := by
  have hdrop : s.unmapAndFreeUserPage root page = s.dropLeaf root page := by
    unfold unmapAndFreeUserPage unmapUserPageInRoot dropLeaf
    rw [h.readUserLeaf_eq hspace]
    cases s.leafAt root page <;> rfl
  rw [hdrop]
  exact dropLeaf_effects h hfree hspace hkeeps (fun kind hkind hfile _ =>
    absurd hfile (hback kind hkind))

end

/-- The loop that unmaps the pages of a range outside of files. -/
theorem unmapPages_spec {pages : List Nat} (h : Inv m s) (hfree : m.hold root = .free)
    (hspace : s.spaces root = some space) (hkeeps : ∀ page ∈ pages, m.keeps root page = false)
    (hback : ∀ page ∈ pages, ∀ kind, kindAt space.vmas page = some kind →
      kind.backing ≠ .fileBacked) : Effects m s (s.unmapPages root pages) ∧
      (s.unmapPages root pages).spaces = update s.spaces root
        (some { space with leaves := withoutPages pages space.leaves }) :=
  foldl_pages _ (fun sp page => m.keeps root page = false ∧ ∀ kind,
      kindAt sp.vmas page = some kind → kind.backing ≠ .fileBacked)
    (fun _ _ _ hinv hsp hgood => unmapAndFreeUserPage_effect hinv hfree hsp hgood.1 hgood.2)
    (fun _ _ _ hgood => hgood) pages s space h hspace
    (fun page hpage => ⟨hkeeps page hpage, hback page hpage⟩)

end Unmap

/-! ## §3. Areas that come. -/

section Add

variable {m : Mode} {root : Nat} {vmas : VmaCollection} {entry : VmaEntry}

variable (h : Inv m s) (hfree : m.hold root = .free) {f : AddressSpace → AddressSpace}

include h hfree

/-- An area that no file backs is added. -/
theorem Inv.addArea (hspace : s.spaces root = some space)
    (hadd : internalAddProcessVma space.layout space.vmas entry = some vmas)
    (hback : entry.backing ≠ .fileBacked) (hlayout : (f space).layout = space.layout)
    (hleaves : (f space).leaves = space.leaves) (hentries : (f space).vmas.entries = vmas.entries)
    (hcount : (f space).vmas.count = vmas.count)
    (hcursor : (f space).vmas.anonNext = vmas.anonNext ∨
      entry.purpose = .anonymous ∧ (f space).vmas.anonNext = entry.stop) :
    Effect m s (s.modifySpace root f) := by
  have hok := h.areas root space hspace
  unfold internalAddProcessVma at hadd
  split at hadd
  · rename_i hallowed
    obtain ⟨i, hadded⟩ := internalAddVma_added hadd
    have hok' := hadded.ok hok hallowed
    have hnext : CursorOk (f space).vmas.anonNext := by
      rcases hcursor with heq | ⟨hpurpose, heq⟩ <;> rw [heq]
      · exact hok'.cursor
      · exact allowed_anonymous hok.initialised hallowed hpurpose
    refine h.retag_areas hfree hspace hlayout hleaves (hok'.congr hentries hcount hnext)
      (fun page leaf hleaf => ?_) (fun j => ?_)
    · obtain ⟨_, hleafOk⟩ := h.leaves root space page leaf hspace hleaf
      have hkeep := hadded.kindAt_keeps hok hallowed hleafOk.area
      rw [hleafOk.area, ← hkeep]
      exact congrArg _ (vmaAt_congr hentries page)
    · rw [← hadded.fileOf_eq hback j]
      unfold fileOf
      rw [hentries]
  · cases hadd

/-- `map_anonymous_current`. -/
theorem mapAnonymousCurrent_effects (len permissions flags : Nat) (canBlock : Bool) :
    Effects m s (s.mapAnonymousCurrent root len permissions flags canBlock).2 := by
  unfold mapAnonymousCurrent
  rcases hspace : s.spaces root with _ | space
  · exact .refl
  dsimp only
  split
  · exact .refl
  split
  · exact .refl
  split
  · exact .refl
  split
  · exact .refl
  split
  · exact .refl
  split
  · exact .refl
  rename_i hadd
  exact .single (h.addArea hfree hspace hadd nofun rfl rfl rfl rfl (.inr ⟨rfl, rfl⟩))

/-- `dyn_map_current`. -/
theorem dynMapCurrent_effects (base len permissions : Nat) (canBlock : Bool) :
    Effects m s (s.dynMapCurrent root base len permissions canBlock).2 := by
  unfold dynMapCurrent
  rcases hspace : s.spaces root with _ | space
  · exact .refl
  dsimp only
  split
  · exact .refl
  split
  · exact .refl
  split
  · exact .refl
  split
  · exact .refl
  split
  · exact .refl
  split
  · exact .refl
  split
  · exact .refl
  split
  · exact .refl
  rename_i hadd
  exact .single (h.addArea hfree hspace hadd nofun rfl rfl rfl rfl (.inl rfl))

omit h in
/-- An area that a file backs comes with a reference. -/
theorem openArea_effect (hspace : s.spaces root = some space) {file : Nat} {vmas' : VmaCollection}
    (hadd : internalAddProcessVma space.layout space.vmas entry = some vmas)
    (hback : entry.backing = .fileBacked) (hfile : entry.fileBacking = some file)
    (hf : f space = { space with vmas := vmas' }) (hentries : vmas'.entries = vmas.entries)
    (hcount : vmas'.count = vmas.count) (hcursor : vmas'.anonNext = vmas.anonNext) :
    Effect m s ((s.retainFile file).modifySpace root f) := by
  unfold internalAddProcessVma at hadd
  split at hadd
  · rename_i hallowed
    obtain ⟨i, hadded⟩ := internalAddVma_added hadd
    rw [modifySpace_eq (s := s.retainFile file) hspace, hf]
    exact .openArea hspace hadded hallowed hback hfile hentries hcount hcursor hfree
  · cases hadd

omit h in
/-- `map_file_current`. -/
theorem mapFileCurrent_effects (file : Option OpenFile) (offset len permissions flags : Nat)
    (canBlock : Bool) :
    Effects m s (s.mapFileCurrent root file offset len permissions flags canBlock).2 := by
  unfold mapFileCurrent
  rcases hspace : s.spaces root with _ | space
  · exact .refl
  dsimp only
  split
  · exact .refl
  split
  · exact .refl
  split
  · exact .refl
  split
  · exact .refl
  rcases file with _ | file
  · exact .refl
  dsimp only
  split
  · exact .refl
  split
  · exact .refl
  split
  · exact .refl
  split
  · exact .refl
  rename_i hadd
  exact .single (openArea_effect hfree hspace hadd rfl rfl rfl rfl rfl rfl)

/-- A process stops running. -/
theorem exitCurrent_effects : Effects m s (s.exitCurrent root) := by
  unfold exitCurrent
  cases hspace : s.spaces root with
  | none =>
    have hsame : s.modifySpace root (fun space => { space with running := false }) = s := by
      unfold modifySpace
      rw [hspace, map_none, ← hspace, update_eq_self]
    rw [hsame]
  | some space =>
    exact .single (h.retag_areas hfree hspace rfl rfl (h.areas root space hspace)
      (fun _ _ _ => rfl) (fun _ => rfl))

end Add

/-! ## §4. Unmapping. -/

section Calls

variable {m : Mode} {root stop : Nat} {staged : VmaCollection}

/-- A call that does not fail has staged the areas. -/
theorem unmapAnonymousCurrent_cases (s : System) (root addr len : Nat) (canBlock : Bool) :
    (∃ e, s.unmapAnonymousCurrent root addr len canBlock = (.error e, s)) ∨
      ∃ space stop staged, s.spaces root = some space ∧ lifecycleRangeBounds addr len = some stop ∧
        stageAnonymousUnmap space.layout space.vmas addr stop = some staged ∧
        s.unmapAnonymousCurrent root addr len canBlock =
          (.ok 0, (s.unmapPages root (pagesIn addr stop)).modifySpace root
            (fun space => { space with vmas := staged })) := by
  unfold unmapAnonymousCurrent
  rcases hspace : s.spaces root with _ | space
  · exact .inl ⟨_, rfl⟩
  dsimp only
  split
  · exact .inl ⟨_, rfl⟩
  rcases hbounds : lifecycleRangeBounds addr len with _ | stop
  · exact .inl ⟨_, rfl⟩
  dsimp only
  rcases hstage : stageAnonymousUnmap space.layout space.vmas addr stop with _ | staged
  · exact .inl ⟨_, rfl⟩
  exact .inr ⟨space, stop, staged, rfl, rfl, hstage, rfl⟩

/-- The pages of a range of anonymous areas. -/
theorem Inv.unmapAnonymous {space : AddressSpace}
    (h : Inv m s) (hfree : m.hold root = .free) (hspace : s.spaces root = some space)
    (haddr : pageAligned addr)
    (hstaged : Staged space.layout space.vmas space.vmas staged (fun entry =>
      anonymousLifecycleVmaCompatible space.layout entry entry.permissions) none addr stop)
    (hkeeps : ∀ page, addr ≤ page → page < stop → m.keeps root page = false) :
    Effects m s (s.unmapPages root (pagesIn addr stop)) ∧
      (s.unmapPages root (pagesIn addr stop)).spaces = update s.spaces root
        (some { space with leaves := withoutPages (pagesIn addr stop) space.leaves }) := by
  have hmem := mem_pagesIn haddr stop
  refine unmapPages_spec h hfree hspace (fun page hpage => ?_) (fun page hpage kind hkind => ?_)
  · exact hkeeps page ((hmem page).mp hpage).1 ((hmem page).mp hpage).2.1
  · have hin := (hmem page).mp hpage
    obtain ⟨entry, hentry, hcomp, _⟩ := hstaged.inside page hin.1 hin.2.1
    have hanon := (anonymousLifecycle_movable hcomp).backing
    cases (kindAt_of hentry).symm.trans hkind
    exact fun hfile => nomatch hanon.symm.trans hfile

/-- `unmap_anonymous_current`. -/
theorem unmapAnonymousCurrent_effects (h : Inv m s) (hfree : m.hold root = .free)
    (addr len : Nat) (canBlock : Bool)
    (hkeeps : ∀ page, addr ≤ page → page < addr + len → m.keeps root page = false) :
    Effects m s (s.unmapAnonymousCurrent root addr len canBlock).2 := by
  obtain ⟨e, he⟩ | ⟨space, stop, staged, hspace, hbounds, hstage, hcall⟩ :=
    unmapAnonymousCurrent_cases s root addr len canBlock
  · rw [he]
  obtain ⟨haddr, hstop, _, rfl, _⟩ := lifecycleRangeBounds_some hbounds
  have hstaged := stageAnonymousUnmap_staged (h.areas root space hspace) haddr hstop hstage
  have hgone := h.unmapAnonymous hfree hspace haddr hstaged hkeeps
  have hroot := spaceAt_of hgone.2
  rw [hcall]
  refine Effects.andThen h hgone.1 (fun hinv => .single ?_)
  refine hinv.retag_areas hfree hroot rfl rfl hstaged.ok (fun page leaf hleaf => ?_) hstaged.files
  -- A leaf that is left lies outside of the range.
  obtain ⟨_, hleafOk⟩ := hinv.leaves root _ page leaf hroot hleaf
  refine hstaged.outside page (fun hin => ?_)
  have hnone : withoutPages (pagesIn addr (addr + len)) space.leaves page = none := by
    unfold withoutPages
    exact if_pos ((mem_pagesIn haddr _ page).mpr ⟨hin.1, hin.2, hleafOk.pageOk⟩)
  cases hnone.symm.trans hleaf

/-- The end of a page is above its address. -/
theorem le_pageUp {value up : Nat} (h : pageUp value = some up) : value ≤ up ∧ pageAligned up := by
  unfold pageUp at h
  rw [map_eq_some_iff] at h
  obtain ⟨sum, hsum, rfl⟩ := h
  refine ⟨?_, pageAligned_pageDown sum⟩
  unfold addOverflow at hsum
  have hsize : PAGE_SIZE = 4096 := rfl
  split at hsum
  · have heq := Option.some.inj hsum
    unfold pageDown
    rw [hsize] at heq ⊢
    omega
  · cases hsum

theorem setBreak_effect (h : Inv m s) (hfree : m.hold root = .free)
    (hspace : ∃ sp, s.spaces root = some sp) (newBreak : Nat) :
    Effect m s (s.modifySpace root (fun space => { space with vmas := { space.vmas with
      heapBreak := newBreak } })) := by
  obtain ⟨sp, hsp⟩ := hspace
  have hok := h.areas root sp hsp
  exact h.retag_areas hfree hsp rfl rfl (hok.congr rfl rfl hok.cursor) (fun _ _ _ => rfl)
    (fun _ => rfl)

/-- The pages of the heap above a new break go, and its watermark comes down. -/
theorem shrinkHeap_effects {heap : VmaEntry} {i : Nat} (low top : Nat) (h : Inv m s)
    (hfree : m.hold root = .free) (hspace : s.spaces root = some space)
    (hi : space.vmas.entries i = some heap) (hheap : heap.purpose = .heap) (hlow : heap.start ≤ low)
    (haligned : pageAligned low) (htop : top ≤ heap.materializedEnd)
    (hkeeps : ∀ page, vmaAt space.vmas page = some heap → low ≤ page → m.keeps root page = false) :
    Effects m s ((s.unmapPages root (pagesIn low top)).modifyVma root i
      (fun heap => if low < heap.materializedEnd then { heap with materializedEnd := low }
        else heap)) ∧ ∃ sp, ((s.unmapPages root (pagesIn low top)).modifyVma root i
        (fun heap => if low < heap.materializedEnd then { heap with materializedEnd := low }
          else heap)).spaces root = some sp := by
  have hok := h.areas root space hspace
  have hallowed := hok.allowed i heap hi
  have hback : heap.backing = .anonymous := by
    have hheap' := hallowed
    unfold runtimeVmaAllowed at hheap'
    split_ifs at hheap'
    simp only [hheap, Bool.and_eq_true, beq_iff_eq] at hheap'
    exact hheap'.1.1.2
  have hinside := runtimeVmaAllowed_inside hallowed (by rw [hback]; nofun)
  -- Every page of the range lies in the heap.
  have hin : ∀ page ∈ pagesIn low top, vmaAt space.vmas page = some heap ∧ low ≤ page := by
    intro page hpage
    have hp := (mem_pagesIn haligned top page).mp hpage
    exact ⟨(vmaAt_iff hok).mpr ⟨i, hi, by omega, by omega⟩, hp.1⟩
  have hanon : ∀ page ∈ pagesIn low top, ∀ kind, kindAt space.vmas page = some kind →
      kind.backing ≠ .fileBacked := by
    intro page hpage kind hkind
    cases (kindAt_of (hin page hpage).1).symm.trans hkind
    exact fun hfile => nomatch hback.symm.trans hfile
  have hgone := unmapPages_spec h hfree hspace
    (fun page hpage => hkeeps page (hin page hpage).1 (hin page hpage).2) hanon
  have hroot := spaceAt_of hgone.2
  refine ⟨Effects.andThen h hgone.1 (fun hinv => ?_), _, modifyVma_spaces hroot _⟩
  by_cases hdown : low < heap.materializedEnd
  · exact (hinv.modifyVma hfree hroot hi (by rw [if_pos hdown]) hinside.1 ⟨hlow, by omega⟩).effects
  · exact (hinv.modifyVma hfree hroot hi (by rw [if_neg hdown]) hinside.1 hinside.2).effects

/-- `brk_current`. -/
theorem brkCurrent_effects (h : Inv m s) (hfree : m.hold root = .free) (newBreak : Nat)
    (canBlock : Bool)
    (hkeeps : ∀ space page vma, s.spaces root = some space → space.vmas.heapBase ≤ newBreak →
      newBreak ≠ 0 → vmaAt space.vmas page = some vma → vma.purpose = .heap → newBreak ≤ page →
      m.keeps root page = false) : Effects m s (s.brkCurrent root newBreak canBlock).2 := by
  unfold brkCurrent
  rcases hspace : s.spaces root with _ | space
  · exact .refl
  dsimp only
  split
  · exact .refl
  split
  · exact .refl
  rename_i hzero
  split
  · exact .refl
  rename_i hbounds
  simp only [Bool.or_eq_true, not_or, decide_eq_true_eq] at hbounds
  rcases hfind : internalFindVma space.vmas space.vmas.heapBase with _ | i
  · exact .refl
  dsimp only
  obtain ⟨_, _, heap, hi, hlo, hhi⟩ := internalFindVma_some hfind
  rw [hi]
  dsimp only
  split
  · exact .refl
  rename_i hheap
  simp only [Bool.or_eq_true, not_or, bne_iff_ne, ne_eq, not_not,
    Bool.not_eq_true', Bool.not_eq_false] at hheap
  rcases pageUp space.vmas.heapBreak with _ | oldPageEnd
  · exact .refl
  rcases hnewEnd : pageUp newBreak with _ | newPageEnd
  · exact .refl
  dsimp only
  have hnew := le_pageUp hnewEnd
  split
  · have hshrunk := shrinkHeap_effects newPageEnd
      (if heap.materializedEnd < oldPageEnd then heap.materializedEnd
        else oldPageEnd) h hfree hspace hi hheap.1
      (by omega) hnew.2 (by split <;> omega)
      (fun page hat hlow => hkeeps space page heap hspace
        (Nat.le_of_not_lt hbounds.1) hzero hat hheap.1 (by omega))
    exact Effects.andThen h hshrunk.1
      (fun hinv => .single (setBreak_effect hinv hfree hshrunk.2 newBreak))
  · exact .single (setBreak_effect h hfree ⟨space, hspace⟩ newBreak)

end Calls

/-! ## §5. Permissions. -/

section Protect

variable {m : Mode} {root : Nat}

/-- The leaves of some pages with the attributes that permissions give them. -/
def protectLeaves (perm : UInt8) (pages : List Nat) (leaves : Nat → Option Leaf) :
    Nat → Option Leaf := fun page =>
  if page ∈ pages then (leaves page).map fun leaf => ⟨leaf.frame, protectAttr perm leaf.attr⟩
  else leaves page

/-- A page that is visited again keeps what it was given. -/
theorem protectAttr_idem (perm : UInt8) (attr : PageAttr) :
    protectAttr perm (protectAttr perm attr) = protectAttr perm attr := by
  unfold protectAttr
  by_cases hcow : (attr.cow && permissionsInclude perm VmaPermission.Write)
  · rw [if_pos hcow]
    rw [Bool.and_eq_true] at hcow
    exact if_pos (by simp [hcow.2])
  · rw [if_neg hcow]
    exact if_neg (by simp [anonymousPageAttr, PageAttr.zero])

theorem protectLeaves_cons (perm : UInt8) (page : Nat) (rest : List Nat)
    (leaves : Nat → Option Leaf) : protectLeaves perm rest (update leaves page
      ((leaves page).map fun leaf => ⟨leaf.frame, protectAttr perm leaf.attr⟩)) =
        protectLeaves perm (page :: rest) leaves := by
  funext p
  unfold protectLeaves
  by_cases hp : p = page
  · subst hp
    rw [update_self, if_pos List.mem_cons_self, map_map]
    by_cases hrest : p ∈ rest
    · rw [if_pos hrest]
      refine congrArg (fun f => (leaves p).map f) (funext fun leaf => ?_)
      simp [protectAttr_idem]
    · rw [if_neg hrest]
  · rw [update_of_ne hp]
    simp [hp]

/-- A space gets other leaves. -/
def System.withLeaves (s : System) (root : Nat) (space : AddressSpace)
    (leaves : Nat → Option Leaf) : System :=
  { s with spaces := update s.spaces root (some { space with leaves := leaves }) }

theorem withLeaves_same (hspace : s.spaces root = some space) :
    s.withLeaves root space space.leaves = s := by
  show { s with spaces := update s.spaces root (some space) } = s
  rw [← hspace, update_eq_self]

/-- What the walks of user memory ask of a leaf. -/
def LeafVisible (page : Nat) (leaf : Leaf) : Prop :=
  pageAligned page ∧ pageAligned leaf.frame ∧ leaf.attr.present ∧ leaf.attr.user

theorem protectPage_eq (perm : UInt8) (hspace : s.spaces root = some space)
    (hvisible : ∀ leaf, space.leaves page = some leaf → LeafVisible page leaf) :
    s.protectPage root perm page = s.withLeaves root space (update space.leaves page
      ((space.leaves page).map fun leaf => ⟨leaf.frame, protectAttr perm leaf.attr⟩)) := by
  have hat := leafAt_eq hspace page
  unfold protectPage
  cases hleaf : space.leaves page with
  | none =>
    have hread : s.readUserLeafInRoot root page = none := by
      unfold readUserLeafInRoot
      rw [hat, hleaf]
      simp
    have hsame : update space.leaves page none = space.leaves := update_eq_self_iff.mpr hleaf.symm
    rw [hread, map_none, hsame]
    exact (withLeaves_same hspace).symm
  | some leaf =>
    have hv := hvisible leaf hleaf
    have hread : s.readUserLeafInRoot root page = some leaf := by
      unfold readUserLeafInRoot
      rw [hat, hleaf, hv.1]
      simp [Option.filter, hv.2.2.1, hv.2.2.2]
    rw [hread]
    dsimp only
    unfold remapUserPageInRoot
    rw [if_neg (by simp [hread, hv.2.1])]
    have hset := setLeaf_spaces hspace page (some ⟨leaf.frame, protectAttr perm leaf.attr⟩)
    show { s with spaces := (s.setLeaf root page _).spaces } = _
    rw [hset]
    rfl

/-- The loop that gives the pages of a range their new attributes. -/
theorem protectPages_spec (perm : UInt8) (pages : List Nat) :
    ∀ (s : System) (space : AddressSpace), s.spaces root = some space →
      (∀ page leaf, space.leaves page = some leaf → LeafVisible page leaf) →
      s.protectPages root perm pages =
        s.withLeaves root space (protectLeaves perm pages space.leaves) := by
  induction pages with
  | nil =>
    intro s space hspace _
    exact (withLeaves_same hspace).symm
  | cons page rest ih =>
    intro s space hspace hvisible
    have hfirst := protectPage_eq perm hspace (hvisible page)
    show (s.protectPage root perm page).protectPages root perm rest = _
    rw [hfirst, ih _ _ (update_self ..) ?_]
    · unfold withLeaves
      simp only [update_idem, protectLeaves_cons]
    · intro p leaf hleaf
      have hleaf' : update space.leaves page
        ((space.leaves page).map fun leaf => ⟨leaf.frame, protectAttr perm leaf.attr⟩) p =
          some leaf := hleaf
      by_cases hp : p = page
      · subst hp
        rw [update_self, map_eq_some_iff] at hleaf'
        obtain ⟨old, hold, rfl⟩ := hleaf'
        have hv := hvisible p old hold
        refine ⟨hv.1, hv.2.1, ?_⟩
        unfold protectAttr
        split <;> exact ⟨rfl, rfl⟩
      · rw [update_of_ne hp] at hleaf'
        exact hvisible p leaf hleaf'

/-- What a change of permissions has to respect. -/
structure ProtectOk (m : Mode) (s : System) (space : AddressSpace) (addr stop : Nat)
    (perm : UInt8) : Prop where
  readable : m.readable → ∀ page leaf, space.leaves page = some leaf → addr ≤ page →
    page < stop → permissionsInclude perm VmaPermission.Read
  lone : m.lone → permissionsInclude perm VmaPermission.Write →
    ∀ page leaf, space.leaves page = some leaf → addr ≤ page → page < stop →
      leaf.attr.cow = false → s.frameRefIsShared leaf.frame = false

theorem Inv.protectPages_eq (h : Inv m s) (hspace : s.spaces root = some space) (perm : UInt8)
    (pages : List Nat) (staged : VmaCollection) :
    (s.protectPages root perm pages).modifySpace root (fun space => { space with vmas := staged }) =
      { s with spaces := update s.spaces root (some { space with
        leaves := protectLeaves perm pages space.leaves
        vmas := staged }) } := by
  have hvisible : ∀ page leaf, space.leaves page = some leaf → LeafVisible page leaf := by
    intro page leaf hleaf
    obtain ⟨_, hok⟩ := h.leaves root space page leaf hspace hleaf
    exact ⟨hok.pageOk, hok.frameOk, h.present_user hspace (leafAt_some.mpr ⟨space, hspace, hleaf⟩)⟩
  have hroot : (s.withLeaves root space (protectLeaves perm pages space.leaves)).spaces root =
      some { space with leaves := protectLeaves perm pages space.leaves } := update_self ..
  rw [protectPages_spec perm pages s space hspace hvisible, modifySpace_eq hroot]
  unfold withLeaves
  simp only [update_idem]

/-- Leaves and areas get their new permissions. -/
theorem Inv.protect {compatible : VmaEntry → Bool}
    {perm : UInt8} (h : Inv m s) (hfree : m.hold root = .free)
    (hspace : s.spaces root = some space) (haddr : pageAligned addr)
    (hmov : ∀ entry, compatible entry → entry.Movable)
    (hstaged : Staged space.layout space.vmas space.vmas staged compatible (some perm) addr stop)
    (hprotect : ProtectOk m s space addr stop perm) :
    Effect m s ((s.protectPages root perm (pagesIn addr stop)).modifySpace root
      (fun space => { space with vmas := staged })) := by
  rw [h.protectPages_eq hspace]
  have hmem := mem_pagesIn haddr stop
  refine .retag hspace ⟨hstaged.ok, fun page => ?_, fun page leaf hleaf => ?_,
    fun hm page leaf leaf' hleaf hleaf' hw => ?_, hstaged.files⟩ (.inl hfree)
  · show (protectLeaves perm (pagesIn addr stop) space.leaves page).map _ = _
    unfold protectLeaves
    split
    · rw [map_map]
      rfl
    · rfl
  · have hleaf' : protectLeaves perm (pagesIn addr stop) space.leaves page = some leaf := hleaf
    unfold protectLeaves at hleaf'
    split at hleaf'
    · -- The page is in the range: its area has the permissions.
      rename_i hin
      have hrange := (hmem page).mp hin
      rw [map_eq_some_iff] at hleaf'
      obtain ⟨old, hold, rfl⟩ := hleaf'
      obtain ⟨entry, hentry, hcomp, hkind⟩ := hstaged.inside page hrange.1 hrange.2.1
      have hleafOk := h.leafOk_kind hspace ((leafAt_eq hspace page).trans hold) (kindAt_of hentry)
      have hanon : entry.backing = .anonymous := (hmov entry hcomp).backing
      refine ⟨{ entry.kind with permissions := perm }, hleafOk.pageOk, hleafOk.frameOk, hkind,
        ?_, hleafOk.cached, fun hb => ?_, fun hm => ?_⟩
      · unfold internalVmaAttrAllowed protectAttr
        split <;> simp [anonymousPageAttr, PageAttr.zero]
      · cases hanon.symm.trans hb
      · exact hprotect.readable hm page old hold hrange.1 hrange.2.1
    · rename_i hout
      obtain ⟨kind, hok⟩ := h.leaves root space page leaf hspace hleaf'
      exact LeafOk.congr ⟨kind, hok⟩ Iff.rfl (hstaged.outside page
        (fun hin => hout ((hmem page).mpr ⟨hin.1, hin.2, hok.pageOk⟩)))
  · have hleaf'' : protectLeaves perm (pagesIn addr stop) space.leaves page = some leaf' := hleaf'
    unfold protectLeaves at hleaf''
    split at hleaf''
    · rename_i hin
      have hrange := (hmem page).mp hin
      rw [hleaf, map_some] at hleaf''
      cases hleaf''
      have hw' : (protectAttr perm leaf.attr).writable := hw
      -- A leaf with the marker does not become writable.
      have hcond : permissionsInclude perm VmaPermission.Write ∧ leaf.attr.cow = false := by
        unfold protectAttr at hw'
        split at hw'
        · cases hw'
        · rename_i hcow
          have hwrite : permissionsInclude perm VmaPermission.Write := hw'
          rw [hwrite, Bool.and_true, Bool.not_eq_true] at hcow
          exact ⟨hwrite, hcow⟩
      exact .inr (hprotect.lone hm hcond.1 page leaf hleaf hrange.1 hrange.2.1 hcond.2)
    · rw [hleaf] at hleaf''
      cases hleaf''
      exact .inl hw

/-- A call that does not fail has staged the areas. -/
theorem protectAnonymousCurrent_cases (s : System) (root addr len permissions : Nat)
    (canBlock : Bool) :
    (∃ e, s.protectAnonymousCurrent root addr len permissions canBlock = (.error e, s)) ∨
      ∃ space stop staged, s.spaces root = some space ∧ lifecycleRangeBounds addr len = some stop ∧
        stageAnonymousProtect space.layout space.vmas addr stop (UInt8.ofNat permissions) =
          some staged ∧ s.protectAnonymousCurrent root addr len permissions canBlock =
          (.ok 0, (s.protectPages root (UInt8.ofNat permissions) (pagesIn addr stop)).modifySpace
            root (fun space => { space with vmas := staged })) := by
  unfold protectAnonymousCurrent
  rcases hspace : s.spaces root with _ | space
  · exact .inl ⟨_, rfl⟩
  dsimp only
  split
  · exact .inl ⟨_, rfl⟩
  rcases hbounds : lifecycleRangeBounds addr len with _ | stop
  · exact .inl ⟨_, rfl⟩
  dsimp only
  split
  · exact .inl ⟨_, rfl⟩
  rcases hstage : stageAnonymousProtect space.layout space.vmas addr stop
      (UInt8.ofNat permissions) with _ | staged
  · exact .inl ⟨_, rfl⟩
  exact .inr ⟨space, stop, staged, rfl, rfl, hstage, rfl⟩

/-- `protect_anonymous_current`. -/
theorem protectAnonymousCurrent_effects (h : Inv m s) (hfree : m.hold root = .free)
    (addr len permissions : Nat) (canBlock : Bool)
    (hprotect : ∀ space, s.spaces root = some space → pageAligned addr →
      ProtectOk m s space addr (addr + len) (UInt8.ofNat permissions)) :
    Effects m s (s.protectAnonymousCurrent root addr len permissions canBlock).2 := by
  obtain ⟨e, he⟩ | ⟨space, stop, staged, hspace, hbounds, hstage, hcall⟩ :=
    protectAnonymousCurrent_cases s root addr len permissions canBlock
  · rw [he]
  obtain ⟨haddr, hstop, _, rfl, _⟩ := lifecycleRangeBounds_some hbounds
  have hstaged := stageAnonymousProtect_staged (h.areas root space hspace) haddr hstop hstage
  rw [hcall]
  exact .single (h.protect hfree hspace haddr (fun _ => anonymousLifecycle_movable) hstaged
    (hprotect space hspace haddr))

/-- `dyn_protect_current`. -/
theorem dynProtectCurrent_effects (h : Inv m s) (hfree : m.hold root = .free)
    (base len permissions : Nat) (canBlock : Bool)
    (hprotect : ∀ space, s.spaces root = some space → pageAligned base →
      permissionsInclude (UInt8.ofNat permissions) VmaPermission.Read →
      ProtectOk m s space base (base + len) (UInt8.ofNat permissions)) :
    Effects m s (s.dynProtectCurrent root base len permissions canBlock).2 := by
  unfold dynProtectCurrent
  rcases hspace : s.spaces root with _ | space
  · exact .refl
  dsimp only
  split
  · exact .refl
  split
  · exact .refl
  rcases hbounds : lifecycleRangeBounds base len with _ | stop
  · exact .refl
  dsimp only
  obtain ⟨haddr, hstop, _, hlen, _⟩ := lifecycleRangeBounds_some hbounds
  split
  · exact .refl
  rename_i hcond
  simp only [Bool.or_eq_true, not_or, Bool.not_eq_true', Bool.not_eq_false] at hcond
  split
  · exact .refl
  rcases hstage : stageDynLibProtect space.vmas base stop (UInt8.ofNat permissions) with _ | staged
  · exact .refl
  have hstaged := stageDynLibProtect_staged (h.areas root space hspace) haddr hstop hstage
  exact .single (h.protect hfree hspace haddr (fun _ => dynLibCompatible_movable) hstaged
    (hlen ▸ hprotect space hspace haddr hcond.2))

end Protect

end BigOS.Proc
