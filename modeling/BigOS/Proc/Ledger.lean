/-
  BigOS.Proc.Ledger — what effects leave alone.

  Frames that are allocated have an owner, and references to files have a holder; an
  effect that moves owners moves the accounts with them.  What a mode keeps is kept by
  every sequence of its effects.

  Main results:
    • `Effect.ledger` — the frames and references that no owner accounts for stay,
    • `Effect.memory`, `Effect.kept` — the bytes and the pages that a mode keeps,
    • `Effect.holds` — the address spaces that a mode keeps,
    • `Effects.kept` — all of them, and the invariant, for a sequence of effects.
-/
import BigOS.Proc.Effects

namespace BigOS.Proc

open BigOS.Lib BigOS.Mm Function RefCount Proc.System
open BigOS.Mm.Paging (PageAttr)

variable {s t u : System} {f k phys root page : Nat} {entry : SharedReadonlyPage} {attr : PageAttr}
  {bytes : Nat → UInt8} {m : Mode} {leaf : Leaf}

/-! ## §1. What is accounted for. -/

/-- Nothing is lost or forgotten between two states: the same frames are allocated without
an owner, and the references to files grow with the holders. -/
structure Ledger (s t : System) : Prop where
  frames : ∀ f, Lost t.owner t.allocated f ↔ Lost s.owner s.allocated f
  files : ∀ f, t.fileRefs f + count s.holder f = s.fileRefs f + count t.holder f

theorem Ledger.refl (s : System) : Ledger s s := ⟨fun _ => Iff.rfl, fun _ => rfl⟩

theorem Ledger.trans (h1 : Ledger s t) (h2 : Ledger t u) : Ledger s u := by
  refine ⟨fun f => (h2.frames f).trans (h1.frames f), fun f => ?_⟩
  have h₁f := h1.files f
  have h₂f := h2.files f
  omega

/-- The holders stay, so the references do. -/
theorem Ledger.of_frames (hframes : ∀ f, Lost t.owner t.allocated f ↔ Lost s.owner s.allocated f)
    (hholder : t.holder = s.holder) (hrefs : t.fileRefs = s.fileRefs) : Ledger s t :=
  ⟨hframes, fun f => by rw [hholder, hrefs]⟩

/-- The frames stay where they were. -/
theorem Ledger.of_files (howner : t.owner = s.owner) (hallocated : t.allocated = s.allocated)
    (hfiles : ∀ f, t.fileRefs f + count s.holder f = s.fileRefs f + count t.holder f) :
    Ledger s t :=
  ⟨fun f => by rw [howner, hallocated], hfiles⟩

section Ledger

variable {backing : Nat} {space : AddressSpace}

/-- A reference has been counted whose leaf is not there yet. -/
structure Counted (s t : System) : Prop where
  owner : t.owner = s.owner
  holder : t.holder = s.holder
  spaces : t.spaces = s.spaces
  allocated : t.allocated = s.allocated
  fileRefs : t.fileRefs = s.fileRefs
  memory : t.memory = s.memory

theorem frameRefInc_counted (hinc : s.frameRefInc f = some t) : Counted s t := by
  obtain ⟨_, rfl⟩ := frameRefInc_some hinc
  exact ⟨rfl, rfl, rfl, rfl, rfl, rfl⟩

theorem retainMapping_counted (hk : s.shared k = some entry)
    (hretain : s.sharedReadonlyRetainMapping k entry = some t) : Counted s t := by
  obtain ⟨_, rfl⟩ := retainMapping_some hretain
  refine ⟨?_, ?_, rfl, rfl, rfl, rfl⟩
  · have hset := owner_setShared s k (some { entry with pteRefs := entry.pteRefs + 1 })
    have hown : s.owner (.cache k) = some entry.framePhys := owner_cache hk
    rw [Option.map_some, ← hown, update_eq_self] at hset
    exact hset
  · have hset := holder_setShared s k (some { entry with pteRefs := entry.pteRefs + 1 })
    have hheld : s.holder (.page k) = some entry.backing := by simp [holder, hk]
    rw [Option.map_some, ← hheld, update_eq_self] at hset
    exact hset

theorem Counted.setLeaf_owner (hc : Counted s t) (hspace : s.spaces root = some space)
    (l : Option Leaf) : (t.setLeaf root page l).owner =
      update s.owner (.leaf root page) (l.map Leaf.frame) := by
  have hspace' : t.spaces root = some space := by rw [hc.spaces, hspace]
  rw [owner_setLeaf hspace', hc.owner]

theorem Counted.ledger (hc : Counted s t) (hspace : s.spaces root = some space)
    (hnone : s.owner (.leaf root page) = none) {o : Owner} (hown : s.owner o = some f) :
    Ledger s (t.setLeaf root page (some ⟨f, attr⟩)) := by
  have hspace' : t.spaces root = some space := by rw [hc.spaces, hspace]
  refine Ledger.of_frames (fun c => ?_) ((holder_setLeaf hspace' _ _).trans hc.holder) hc.fileRefs
  rw [hc.setLeaf_owner hspace]
  show Lost _ t.allocated c ↔ _
  rw [hc.allocated]
  exact lost_share hnone hown

theorem Inv.drop_owner (h : Inv m s) (hleaf : s.leafAt root page = some leaf) :
    ((s.setLeaf root page none).frameRefDecAndMaybeFree leaf.frame).owner =
      update s.owner (.leaf root page) none := by
  obtain ⟨space, hspace, _⟩ := leafAt_some.mp hleaf
  rw [frameRefDec_eq (s := s.setLeaf root page none) (h.untracked leaf.frame)]
  exact owner_setLeaf hspace page none

theorem unmappedEntry_owner (hspace : s.spaces root = some space) (hk : s.shared k = some entry)
    (page : Nat) :
    (s.unmappedEntry root page k entry).owner = update s.owner (.leaf root page) none ∧
      (s.unmappedEntry root page k entry).holder = s.holder := by
  have hset : LeafSet s (s.unmappedEntry root page k entry) root page space none :=
    ⟨hspace, setLeaf_spaces hspace page none⟩
  exact ⟨hset.owner_eq (map_update_eq _ hk rfl), hset.holder_eq (map_update_eq _ hk rfl)⟩

theorem Inv.drop_ledger (h : Inv m s) (hleaf : s.leafAt root page = some leaf) :
    Ledger s ((s.setLeaf root page none).frameRefDecAndMaybeFree leaf.frame) := by
  have howner := h.drop_owner hleaf
  obtain ⟨space, hspace, _⟩ := leafAt_some.mp hleaf
  have hholder := holder_setLeaf hspace page none
  rw [frameRefDec_eq (s := s.setLeaf root page none) (h.untracked leaf.frame)] at howner ⊢
  refine Ledger.of_frames (fun f => ?_) hholder rfl
  rw [howner]
  exact h.exact.lost_drop (owner_leaf hleaf)

theorem mapFresh_ledger {kind : VmaEntry} (hvac : Vacant m s root page space kind attr)
    (hfree : s.allocated phys = false) :
    Ledger s ((s.claimFrame phys bytes).setLeaf root page (some ⟨phys, attr⟩)) := by
  refine Ledger.of_frames (fun f => ?_) (holder_setLeaf (s := s.claimFrame _ _) hvac.spaceAt _ _)
    rfl
  rw [owner_setLeaf (s := s.claimFrame _ _) hvac.spaceAt]
  exact lost_claim hvac.owner hfree

theorem Inv.dropCached_ledger (h : Inv m s) (hleaf : s.leafAt root page = some leaf)
    (hcached : s.Cached leaf.frame) :
    Ledger s ((s.setLeaf root page none).sharedReadonlyDropMapping leaf.frame) := by
  obtain ⟨space, hspace, _⟩ := leafAt_some.mp hleaf
  obtain ⟨k, entry, hk, hframe⟩ := cached_entry hcached
  have hown : s.owner (.leaf root page) = some entry.framePhys := by
    rw [owner_leaf hleaf, hframe]
  have hcount := h.cached_refcount hk
  have hfirst := h.exact.drop hown
  have hlost := fun c => h.exact.lost_drop (c := c) hown
  simp only [show ¬s.refcount entry.framePhys = 0 by omega, if_false] at hlost
  rw [← hframe, h.dropMapping_eq hk]
  split
  · rename_i hlast
    have hmid : update s.owner (.leaf root page) none (.cache k) = some entry.framePhys := by
      exact owner_cache hk
    have hholder := clearedEntry_holder hspace page k entry
    refine ⟨fun f => ?_, fun f => ?_⟩
    · -- The leaf goes first, and the directory after it.
      have hsecond := hfirst.lost_drop (c := f) hmid
      rw [update_self, hcount, hlast, if_pos (show dec (1 + 1) = 0 from rfl)] at hsecond
      rw [clearedEntry_owner hspace page k entry]
      exact hsecond.trans (hlost f)
    · rw [hholder]
      exact h.files_release (by simp [holder, hk]) f
  · have hsame := unmappedEntry_owner hspace hk page
    refine Ledger.of_frames (fun f => ?_) hsame.2 rfl
    rw [hsame.1]
    exact hlost f

theorem Inv.mapNew_ledger (h : Inv m s) (hnone : s.owner (.leaf root page) = none)
    (hfree : s.allocated phys = false)
    (hmapped : MappedNew s t root page k phys backing attr space) : Ledger s t := by
  have hcache : s.owner (.cache k) = none := by simp [owner, hmapped.slot]
  have hleaf : update s.owner (.cache k) (some phys) (.leaf root page) = none := by
    exact hnone
  have hpage : s.holder (.page k) = none := by simp [holder, hmapped.slot]
  refine ⟨fun f => ?_, fun f => ?_⟩
  · rw [hmapped.owner, hmapped.allocated]
    exact (lost_share hleaf (update_self ..)).trans (lost_claim hcache hfree)
  · rw [hmapped.holder, hmapped.fileRefs]
    exact h.files_retain hpage backing f

end Ledger

/-! ## §2. What an effect leaves alone. -/

/-- An effect is in the books, or it is a leak, which moves no reference to a file. -/
theorem Effect.booked (h : Inv m s) (he : Effect m s t) :
    Ledger s t ∨ m.tight = false ∧ t.holder = s.holder ∧ t.fileRefs = s.fileRefs := by
  cases he with
  | mapFresh hvac _ _ hfree =>
    exact .inl (mapFresh_ledger hvac hfree)
  | mapShared hvac _ hleaf _ _ _ _ hinc =>
    exact .inl ((frameRefInc_counted hinc).ledger hvac.spaceAt hvac.owner (owner_leaf hleaf))
  | mapCached hvac _ hk _ _ hretain =>
    exact .inl ((retainMapping_counted hk hretain).ledger hvac.spaceAt hvac.owner (owner_cache hk))
  | mapNew hvac _ _ hfree _ hpublish hretain =>
    exact .inl (h.mapNew_ledger hvac.owner hfree (mappedNew hvac.spaceAt hpublish hretain))
  | drop hleaf => exact .inl (h.drop_ledger hleaf)
  | dropCached hleaf hcached => exact .inl (h.dropCached_ledger hleaf hcached)
  | split hleaf _ hvac _ _ hfree =>
    exact .inl ((h.drop_ledger hleaf).trans (mapFresh_ledger hvac hfree))
  | retag hspace hretags =>
    exact .inl (Ledger.of_frames (fun f => iff_of_eq (congrArg (Lost · s.allocated f)
        (owner_update hspace rfl rfl hretags.frames)))
      (holder_update hspace rfl (fun _ => rfl) hretags.files) rfl)
  | openArea hspace hadded _ hback hfile hentries =>
    refine .inl (Ledger.of_files (owner_update hspace rfl rfl (fun _ => rfl)) rfl (fun f => ?_))
    rw [holder_openArea hspace hadded hback hfile hentries]
    exact h.files_retain (by simp [holder, hspace, fileOf, hadded.vacant]) _ f
  | @newSpace root space refs hroot hok hleaves hrefs _ =>
    have hext := holder_extends (t := { s with
      spaces := update s.spaces root (some space), fileRefs := refs }) hroot rfl rfl
    refine .inl (Ledger.of_files (owner_update hroot rfl rfl fun page =>
      congrArg _ (hleaves page)) rfl fun f => ?_)
    rw [count_extend hext h.held (fileOf_finitely hok)]
    show refs f + _ = _
    rw [hrefs f]
    omega
  | @removeSpace root space refs hroot hleaves hrefs _ =>
    have hheld := (h.removeSpace_holder hroot refs).2
    refine .inl (Ledger.of_files (owner_update hroot rfl rfl fun page =>
      (congrArg _ (hleaves page)).symm) rfl fun f => ?_)
    have hfiles := h.files f
    have hc := hheld f
    show refs f + _ = _
    rw [hrefs f]
    omega
  | touch => exact .inl (Ledger.of_frames (fun _ => Iff.rfl) rfl rfl)
  | leak hm => exact .inr ⟨hm, rfl, rfl⟩

/-- An effect of a mode without leaks loses no frame, and no effect forgets a reference. -/
theorem Effect.ledger (h : Inv m s) (he : Effect m s t) (htight : m.tight) : Ledger s t := by
  rcases he.booked h with hledger | ⟨hm, _⟩
  · exact hledger
  · cases hm.symm.trans htight

/-- The references to files grow with the holders, in every mode. -/
theorem Effect.files (h : Inv m s) (he : Effect m s t) (f : Nat) :
    t.fileRefs f + count s.holder f = s.fileRefs f + count t.holder f := by
  rcases he.booked h with hledger | ⟨_, hholder, hrefs⟩
  · exact hledger.files f
  · rw [hholder, hrefs]

/-! ## §3. Bytes and pages. -/

section Kept

/-- The bytes of a frame that a page of zeros or a copy goes to. -/
theorem claimFrame_memory (hf : f ≠ phys) :
    (s.claimFrame phys bytes).memory f = s.memory f := update_of_ne hf ..

theorem claimFrame_owner : (s.claimFrame phys bytes).owner = s.owner := owner_congr rfl rfl

theorem frameRefDec_memory (s : System) (f : Nat) :
    (s.frameRefDecAndMaybeFree f).memory = s.memory := by
  unfold frameRefDecAndMaybeFree
  split <;> rfl

/-- A quiet effect leaves the bytes of the frames that have an owner. -/
theorem Effect.memory (h : Inv m s) (he : Effect m s t) (hquiet : m.quiet) {o : Owner}
    (ho : s.owner o = some f) : t.memory f = s.memory f := by
  have hfresh : ∀ phys, s.allocated phys = false → f ≠ phys := by
    intro phys hfree heq
    exact h.exact.not_owned hfree o (heq ▸ ho)
  cases he with
  | mapFresh _ _ _ hfree => exact claimFrame_memory (hfresh _ hfree)
  | mapShared _ _ _ _ _ _ _ hinc =>
    exact congrFun (frameRefInc_counted hinc).memory f
  | mapCached _ _ hk _ _ hretain =>
    exact congrFun (retainMapping_counted hk hretain).memory f
  | mapNew _ _ _ hfree _ hpublish hretain =>
    obtain ⟨_, _, rfl⟩ := publishNew_some hpublish
    obtain ⟨_, rfl⟩ := retainMapping_some hretain
    exact claimFrame_memory (hfresh _ hfree)
  | drop => exact congrFun (frameRefDec_memory _ _) f
  | dropCached _ hcached =>
    obtain ⟨k, entry, hk, hframe⟩ := cached_entry hcached
    rw [← hframe, h.dropMapping_eq hk]
    split <;> rfl
  | @split root page phys attr leaf space kind hleaf hcached hvac hback hphys hfree =>
    show update ((s.setLeaf root page none).frameRefDecAndMaybeFree leaf.frame).memory
      phys (s.memory leaf.frame) f = _
    by_cases hf : f = phys
    · -- The frame that is claimed is the one that the leaf has given up.
      have hsame : phys = leaf.frame := by
        by_contra hne
        refine hfresh phys ?_ hf
        rw [frameRefDec_eq (s := s.setLeaf root page none) (h.untracked leaf.frame)] at hfree
        have hfree' : (if s.refcount leaf.frame = 0 then update s.allocated leaf.frame false
            else s.allocated) phys = false := hfree
        split at hfree'
        · rwa [update_of_ne hne] at hfree'
        · exact hfree'
      rw [hf, update_self, hsame]
    · rw [update_of_ne hf, frameRefDec_memory]
      rfl
  | retag => rfl
  | openArea => rfl
  | newSpace => rfl
  | removeSpace => rfl
  | touch hsame => exact hsame hquiet o f ho
  | leak _ _ hsame => exact hsame hquiet o f ho

/-- The frame of a page, other than the one that an effect takes away. -/
theorem update_owner_leaf {own : Owner → Option Nat} {root' page' : Nat} {l : Option Nat}
    (ho : own (.leaf root page) = some f) (hne : Owner.leaf root page ≠ .leaf root' page') :
    update own (.leaf root' page') l (.leaf root page) = some f := by
  rw [update_of_ne hne]
  exact ho

/-- A page that a mode keeps is mapped, and in a quiet mode its bytes are what they were. -/
theorem Effect.kept (h : Inv m s) (he : Effect m s t) (hkeeps : m.keeps root page)
    (ho : s.owner (.leaf root page) = some f) :
    ∃ g, t.owner (.leaf root page) = some g ∧ (m.quiet → t.memory g = s.memory f) := by
  -- All effects but the copy leave the page where it is.
  suffices hstay : t.owner (.leaf root page) = some f ∨
      ∃ g, t.owner (.leaf root page) = some g ∧ t.memory g = s.memory f by
    rcases hstay with hsame | hmoved
    · exact ⟨f, hsame, fun hq => he.memory h hq ho⟩
    · obtain ⟨g, hg, hbytes⟩ := hmoved
      exact ⟨g, hg, fun _ => hbytes⟩
  have hother : ∀ root' page', s.owner (.leaf root' page') = none →
      Owner.leaf root page ≠ .leaf root' page' := by
    intro root' page' hnone heq
    rw [← heq, ho] at hnone
    cases hnone
  have hsame : ∀ {t : System}, t.owner = s.owner → t.owner (.leaf root page) = some f ∨
      ∃ g, t.owner (.leaf root page) = some g ∧ t.memory g = s.memory f := by
    intro t howner
    rw [howner]
    exact .inl ho
  have hkept : ∀ root' page', m.keeps root' page' = false →
      Owner.leaf root page ≠ .leaf root' page' := by
    intro root' page' hgoes heq
    rw [(Owner.leaf.inj heq).1, (Owner.leaf.inj heq).2, hgoes] at hkeeps
    cases hkeeps
  cases he with
  | mapFresh hvac =>
    rw [owner_setLeaf (s := s.claimFrame _ _) hvac.spaceAt]
    exact .inl (update_owner_leaf ho (hother _ _ hvac.owner))
  | mapShared hvac _ _ _ _ _ _ hinc =>
    rw [(frameRefInc_counted hinc).setLeaf_owner hvac.spaceAt]
    exact .inl (update_owner_leaf ho (hother _ _ hvac.owner))
  | mapCached hvac _ hk _ _ hretain =>
    rw [(retainMapping_counted hk hretain).setLeaf_owner hvac.spaceAt]
    exact .inl (update_owner_leaf ho (hother _ _ hvac.owner))
  | mapNew hvac _ _ _ _ hpublish hretain =>
    rw [(mappedNew hvac.spaceAt hpublish hretain).owner]
    refine .inl (update_owner_leaf ?_ (hother _ _ hvac.owner))
    exact ho
  | drop hleaf _ hgoes =>
    rw [h.drop_owner hleaf]
    exact .inl (update_owner_leaf ho (hkept _ _ hgoes))
  | dropCached hleaf hcached hgoes =>
    obtain ⟨space, hspace, _⟩ := leafAt_some.mp hleaf
    obtain ⟨k, entry, hk, hframe⟩ := cached_entry hcached
    rw [← hframe, h.dropMapping_eq hk]
    split
    · rw [clearedEntry_owner hspace _ k entry, update_of_ne (Owner.cache_ne_leaf k root page).symm]
      exact .inl (update_owner_leaf ho (hkept _ _ hgoes))
    · rw [(unmappedEntry_owner hspace hk _).1]
      exact .inl (update_owner_leaf ho (hkept _ _ hgoes))
  | @split root' page' phys attr leaf space kind hleaf hcached hvac hback hphys hfree =>
    rw [owner_setLeaf (s := claimFrame _ _ _) hvac.spaceAt]
    by_cases heq : Owner.leaf root page = .leaf root' page'
    · refine .inr ⟨phys, ?_, ?_⟩
      · rw [heq]
        exact update_self ..
      · have hframe : f = leaf.frame := by
          rw [heq, owner_leaf hleaf] at ho
          exact (Option.some.inj ho).symm
        rw [hframe]
        exact update_self ..
    · refine .inl (update_owner_leaf ?_ heq)
      rw [claimFrame_owner, h.drop_owner hleaf]
      exact update_owner_leaf ho heq
  | retag hspace hretags => exact hsame (owner_update hspace rfl rfl hretags.frames)
  | openArea hspace =>
    exact hsame (owner_update hspace rfl rfl (fun _ => rfl))
  | newSpace hroot _ hleaves =>
    exact hsame (owner_update hroot rfl rfl (fun page => congrArg _ (hleaves page)))
  | removeSpace hroot hleaves =>
    exact hsame (owner_update hroot rfl rfl (fun page => (congrArg _ (hleaves page)).symm))
  | touch => exact .inl ho
  | leak => exact .inl ho

end Kept

/-! ## §4. Spaces that are held. -/

theorem Demotes.refl (space : AddressSpace) : Demotes space space :=
  ⟨rfl, rfl, rfl, fun _ => .inl rfl⟩

/-- A page becomes copy-on-write once. -/
theorem Demotes.trans {a b c : AddressSpace} (h1 : Demotes a b) (h2 : Demotes b c) :
    Demotes a c := by
  refine ⟨h2.layout.trans h1.layout, h2.vmas.trans h1.vmas, h2.running.trans h1.running, ?_⟩
  intro page
  rcases h1.leaves page with hsame | ⟨leaf, hleaf, hw, hcow⟩
  · rw [← hsame]
    exact h2.leaves page
  rcases h2.leaves page with hsame' | ⟨leaf', hleaf', hw', _⟩
  · exact .inr ⟨leaf, hleaf, hw, hsame'.trans hcow⟩
  · rw [hcow] at hleaf'
    cases hleaf'
    cases hw'

theorem Demotes.frames {a b : AddressSpace} (h : Demotes a b) (page : Nat) :
    (b.leaves page).map Leaf.frame = (a.leaves page).map Leaf.frame := by
  rcases h.leaves page with hsame | ⟨leaf, hleaf, _, hcow⟩
  · rw [hsame]
  · rw [hleaf, hcow]
    rfl

/-- What the roots that a mode holds keep. -/
structure Holds (m : Mode) (s t : System) : Prop where
  spaces : ∀ root, m.hold root = .space → t.spaces root = s.spaces root
  demotes : ∀ root, m.hold root ≠ .free → Option.Rel Demotes (s.spaces root) (t.spaces root)
  /-- The directory keeps the pages that held roots have mapped. -/
  entries : ∀ root page k entry, m.hold root ≠ .free →
    s.owner (.leaf root page) = some entry.framePhys → s.shared k = some entry →
      ∃ n, t.shared k = some { entry with pteRefs := n }
  /-- No other page of the directory is one that held roots have mapped. -/
  fresh : ∀ k entry', t.shared k = some entry' →
    (∃ entry, s.shared k = some entry ∧ entry' = { entry with pteRefs := entry'.pteRefs }) ∨
      ∀ root page, m.hold root ≠ .free → s.owner (.leaf root page) ≠ some entry'.framePhys

theorem optionRel_refl (l : Option AddressSpace) : Option.Rel Demotes l l := by
  cases l with
  | none => exact .none
  | some space => exact .some (Demotes.refl space)

theorem optionRel_trans {a b c : Option AddressSpace} (h1 : Option.Rel Demotes a b)
    (h2 : Option.Rel Demotes b c) : Option.Rel Demotes a c := by
  cases h1 with
  | none => exact h2
  | some hab =>
    cases h2 with
    | some hbc => exact .some (hab.trans hbc)

section Holds

theorem Holds.owner (h : Holds m s t) (hroot : m.hold root ≠ .free) (page : Nat) :
    t.owner (.leaf root page) = s.owner (.leaf root page) := by
  have hrel := h.demotes root hroot
  simp only [System.owner, System.leafAt]
  generalize s.spaces root = before at hrel ⊢
  generalize t.spaces root = after at hrel ⊢
  cases hrel with
  | none => rfl
  | some hdem => exact hdem.frames page

/-- Only a root that is free changes, and the directory stays. -/
theorem holds_of_update {l : Option AddressSpace} (hhold : m.hold root = .free)
    (hspaces : t.spaces = update s.spaces root l) (hshared : t.shared = s.shared) :
    Holds m s t := by
  have hother : ∀ r, m.hold r ≠ .free → t.spaces r = s.spaces r := by
    intro r hr
    have hne : r ≠ root := by
      intro heq
      exact hr (heq ▸ hhold)
    rw [hspaces, update_of_ne hne]
  refine ⟨fun r hr => hother r (by rw [hr]; nofun), fun r hr => ?_, fun _ _ k entry _ _ hk => ?_,
    fun k entry' hk => ?_⟩
  · rw [hother r hr]
    exact optionRel_refl _
  · rw [hshared]
    exact ⟨entry.pteRefs, hk⟩
  · rw [hshared] at hk
    exact .inl ⟨entry', hk, rfl⟩

theorem Holds.refl (s : System) : Holds m s s :=
  ⟨fun _ _ => rfl, fun _ _ => optionRel_refl _, fun _ _ _ entry _ _ hk => ⟨entry.pteRefs, hk⟩,
    fun _ entry' hk => .inl ⟨entry', hk, rfl⟩⟩

theorem Holds.trans (h1 : Holds m s t) (h2 : Holds m t u) : Holds m s u where
  spaces root hroot := (h2.spaces root hroot).trans (h1.spaces root hroot)
  demotes root hroot := optionRel_trans (h1.demotes root hroot) (h2.demotes root hroot)
  entries root page k entry hroot hown hk := by
    obtain ⟨n, hmid⟩ := h1.entries root page k entry hroot hown hk
    have hown' : t.owner (.leaf root page) = some entry.framePhys :=
      (h1.owner hroot page).trans hown
    exact h2.entries root page k { entry with pteRefs := n } hroot hown' hmid
  fresh k entry' hk := by
    rcases h2.fresh k entry' hk with ⟨mid, hmid, heq⟩ | hno
    · rcases h1.fresh k mid hmid with ⟨entry, hentry, heq'⟩ | hno
      · refine .inl ⟨entry, hentry, ?_⟩
        rw [heq, heq']
      · refine .inr ?_
        rw [heq]
        exact hno
    · refine .inr (fun root page hroot hown => ?_)
      exact hno root page hroot ((h1.owner hroot page).trans hown)

end Holds

theorem Inv.drop_holds (h : Inv m s) (hleaf : s.leafAt root page = some leaf)
    (hhold : m.hold root = .free) :
    Holds m s ((s.setLeaf root page none).frameRefDecAndMaybeFree leaf.frame) := by
  obtain ⟨space, hspace, _⟩ := leafAt_some.mp hleaf
  rw [frameRefDec_eq (s := s.setLeaf root page none) (h.untracked leaf.frame)]
  exact holds_of_update hhold (setLeaf_spaces hspace page none) rfl

/-- The counter of an entry of the directory changes as well. -/
theorem Holds.recount {t' : System} (hbase : Holds m s t) (hspaces : t'.spaces = t.spaces) {n : Nat}
    (hk : s.shared k = some entry)
    (hshared : t'.shared = update s.shared k (some { entry with pteRefs := n })) :
    Holds m s t' := by
  refine ⟨hspaces ▸ hbase.spaces, hspaces ▸ hbase.demotes, fun root page j e hroot hown hj => ?_,
    fun j e' hj => ?_⟩
  · rw [hshared]
    by_cases hjk : j = k
    · subst hjk
      rw [hk] at hj
      cases hj
      exact ⟨n, update_self ..⟩
    · rw [update_of_ne hjk]
      exact ⟨e.pteRefs, hj⟩
  · rw [hshared] at hj
    rcases update_some_cases hj with ⟨rfl, rfl⟩ | ⟨_, hj⟩
    · exact .inl ⟨entry, hk, rfl⟩
    · exact .inl ⟨e', hj, rfl⟩

/-- A leaf of a free root goes from a page of the directory. -/
theorem Inv.dropCached_holds (h : Inv m s) (hleaf : s.leafAt root page = some leaf)
    (hcached : s.Cached leaf.frame) (hhold : m.hold root = .free) :
    Holds m s ((s.setLeaf root page none).sharedReadonlyDropMapping leaf.frame) := by
  obtain ⟨space, hspace, _⟩ := leafAt_some.mp hleaf
  obtain ⟨k, entry, hk, hframe⟩ := cached_entry hcached
  have hbase := holds_of_update (s := s) (t := s.setLeaf root page none) hhold
    (setLeaf_spaces hspace page none) rfl
  rw [← hframe, h.dropMapping_eq hk]
  split
  · rename_i hlast
    refine ⟨hbase.spaces, hbase.demotes, fun root' page' j e hroot hown hj => ?_, fun j e' hj => ?_⟩
    · -- The entry that went had no other leaf.
      have hjk : j ≠ k := by
        intro heq
        rw [heq, hk] at hj
        cases hj
        rcases h.last_owner hleaf hk hframe hlast hown with hl | hl
        · exact hroot ((Owner.leaf.inj hl).1 ▸ hhold)
        · exact Owner.cache_ne_leaf _ _ _ hl.symm
      refine ⟨e.pteRefs, ?_⟩
      show update s.shared k none j = _
      rw [update_of_ne hjk]
      exact hj
    · exact .inl ⟨e', (update_none_some hj).2, rfl⟩
  · exact hbase.recount rfl hk rfl

/-- A page of a free root gets a frame that was free, and the directory an entry for it. -/
theorem Inv.mapNew_holds {space : AddressSpace} (h : Inv m s)
    (hhold : m.hold root = .free) (hfree : s.allocated phys = false)
    (hmapped : MappedNew s t root page k phys backing attr space) : Holds m s t := by
  obtain ⟨key, hshared⟩ := hmapped.shared
  have hbase := holds_of_update (s := s) (t := { t with shared := s.shared }) hhold
    hmapped.set.spaces rfl
  refine ⟨hbase.spaces, hbase.demotes, fun root' page' j e hroot hown hj => ?_, fun j e' hj => ?_⟩
  · have hjk : j ≠ k := by
      intro heq
      rw [heq, hmapped.slot] at hj
      cases hj
    rw [hshared, update_of_ne hjk]
    exact ⟨e.pteRefs, hj⟩
  · rw [hshared] at hj
    rcases update_some_cases hj with ⟨rfl, rfl⟩ | ⟨_, hj⟩
    · exact .inr (fun root' page' _ => h.exact.not_owned hfree _)
    · exact .inl ⟨e', hj, rfl⟩

/-- An effect leaves the roots that its mode holds. -/
theorem Effect.holds (h : Inv m s) (he : Effect m s t) : Holds m s t := by
  cases he with
  | mapFresh hvac =>
    exact holds_of_update hvac.free (setLeaf_spaces (s := s.claimFrame _ _) hvac.spaceAt _ _) rfl
  | @mapShared u _ _ _ _ _ _ _ _ hvac hback hleaf hcached hframe hro hro' hinc =>
    obtain ⟨_, rfl⟩ := frameRefInc_some hinc
    exact holds_of_update hvac.free (setLeaf_spaces (s := { s with refcount := _ }) hvac.spaceAt
      _ _) rfl
  | mapCached hvac _ hk _ _ hretain =>
    obtain ⟨_, rfl⟩ := retainMapping_some hretain
    exact (holds_of_update (t := s.setLeaf _ _ (some ⟨_, _⟩)) hvac.free
      (setLeaf_spaces hvac.spaceAt _ _) rfl).recount rfl hk rfl
  | mapNew hvac _ _ hfree _ hpublish hretain =>
    exact h.mapNew_holds hvac.free hfree (mappedNew hvac.spaceAt hpublish hretain)
  | drop hleaf _ _ hhold => exact h.drop_holds hleaf hhold
  | dropCached hleaf hcached _ hhold => exact h.dropCached_holds hleaf hcached hhold
  | split hleaf _ hvac =>
    exact (h.drop_holds hleaf hvac.free).trans (holds_of_update hvac.free
      (setLeaf_spaces (s := claimFrame _ _ _) hvac.spaceAt _ _) rfl)
  | @retag root space space' hspace hretags hhold =>
    rcases hhold with hfree | ⟨hframes, hdem⟩
    · exact holds_of_update hfree rfl rfl
    refine ⟨fun r hr => ?_, fun r hr => ?_, fun _ _ k entry _ _ hk => ⟨entry.pteRefs, hk⟩,
      fun k entry' hk => .inl ⟨entry', hk, rfl⟩⟩
    · have hne : r ≠ root := by
        intro heq
        rw [heq, hframes] at hr
        cases hr
      exact update_of_ne hne ..
    · show Option.Rel Demotes _ (update s.spaces root (some space') r)
      by_cases hne : r = root
      · rw [hne, hspace, update_self]
        exact .some hdem
      · rw [update_of_ne hne]
        exact optionRel_refl _
  | openArea _ _ _ _ _ _ _ _ hhold =>
    exact holds_of_update hhold rfl rfl
  | newSpace _ _ _ _ hhold => exact holds_of_update hhold rfl rfl
  | removeSpace _ _ _ hhold => exact holds_of_update hhold rfl rfl
  | touch _ | leak _ _ _ =>
    have hsame := Holds.refl (m := m) s
    exact ⟨hsame.spaces, hsame.demotes, hsame.entries, hsame.fresh⟩

/-! ## §5. Sequences of effects. -/

/-- What an operation does: effects, one after the other. -/
abbrev Effects (m : Mode) : System → System → Prop := Relation.ReflTransGen (Effect m)

/-- What a sequence of effects keeps. -/
structure Kept (m : Mode) (s t : System) : Prop where
  ledger : m.tight → Ledger s t
  pages : ∀ root page f, m.keeps root page → s.owner (.leaf root page) = some f →
    ∃ g, t.owner (.leaf root page) = some g ∧ (m.quiet → t.memory g = s.memory f)
  memory : m.quiet → ∀ root page f, m.hold root ≠ .free →
    s.owner (.leaf root page) = some f → t.memory f = s.memory f
  holds : Holds m s t

section

variable (h : Inv m s) (he : Effects m s t)

include h he

theorem Effects.kept : Inv m t ∧ Kept m s t := by
  induction he with
  | refl =>
    exact ⟨h, fun _ => Ledger.refl s, fun _ _ f _ ho => ⟨f, ho, fun _ => rfl⟩,
      fun _ _ _ _ _ _ => rfl, Holds.refl s⟩
  | tail _ hlast ih =>
    obtain ⟨hmid, hkept⟩ := ih
    refine ⟨hlast.inv hmid, fun ht => (hkept.ledger ht).trans (hlast.ledger hmid ht), ?_, ?_,
      hkept.holds.trans (hlast.holds hmid)⟩
    · intro root page f hk ho
      obtain ⟨g, hg, hbytes⟩ := hkept.pages root page f hk ho
      obtain ⟨g', hg', hbytes'⟩ := hlast.kept hmid hk hg
      exact ⟨g', hg', fun hq => (hbytes' hq).trans (hbytes hq)⟩
    · intro hq root page f hroot ho
      have hown := (hkept.holds.owner hroot page).trans ho
      exact (hlast.memory hmid hq hown).trans (hkept.memory hq root page f hroot ho)

theorem Effects.inv : Inv m t := (he.kept h).1

theorem Effects.files (f : Nat) :
    t.fileRefs f + count s.holder f = s.fileRefs f + count t.holder f := by
  induction he with
  | refl => rfl
  | tail hfirst hlast ih =>
    have hstep := hlast.files (Effects.inv h hfirst) f
    omega

end

/-- One operation after another. -/
theorem Effects.andThen (h : Inv m s) (h1 : Effects m s t)
    (h2 : Inv m t → Effects m t u) : Effects m s u := h1.trans (h2 (h1.inv h))

end BigOS.Proc
