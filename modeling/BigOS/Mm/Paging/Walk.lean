/-
  BigOS.Mm.Paging.Walk — mapping one page.

  `map_single_page` and `map_root_page` walk down the tables of an address
  space, create the missing ones, and publish the leaf; on any failure they
  take back what they created.  `Walk` is what holds while they are on their
  way, `Kept` what holds when they are done.

  Main results:
    • `Walk.ensure` — one level,
    • `Walk.rollback` — `clear_owned_paging_descriptors` undoes the walk,
    • `mapPage_spec` — the page is mapped, or nothing has changed.
-/
import BigOS.Mm.Paging.Tree

namespace BigOS.Mm.Paging

open BigOS.Lib.Radix BigOS.Lib.Slots PagingState Descriptor List Space

/-! ## §1. What a mapping leaves behind. -/

/-- The pages an address space maps, by path. -/
abbrev Pages := List Nat → Option Descriptor

/-- The address space maps the pages `L`, its counts are exact, and the other
address spaces have the slots `T`. -/
structure Kept (m : Machine) (c : Space) (L : Pages) (T : List PageTableMetadata)
    (s : PagingState) : Prop where
  tree : Tree m c s
  foreign : c.foreign s = T
  leaf : ∀ q, q.length = 4 → c.leaf s q = L q

/-- The trees that hang in `G` and not yet in `F`, newest last. -/
inductive Grown (F : Forest Nat Descriptor) : List Change → Forest Nat Descriptor → Prop where
  | base : Grown F [] F
  | hang {changes : List Change} {G : Forest Nat Descriptor} {f i k : Nat} {d : Descriptor}
      (rest : Grown F changes G) (hf : G.height f = some (k + 1)) (hi : G.row f i = none)
      (hd : G.height d.addr = none) (hrow : ∀ j, G.row d.addr j = none) :
      Grown F (changes ++ [⟨f, i, d.addr⟩]) (G.attach addr f i d k)

/-- A walk that has come to table `f` by path `p`, with `changes` made on the way. -/
structure Walk (m : Machine) (c : Space) (L : Pages) (T : List PageTableMetadata)
    (p : List Nat) (f : Nat) (changes : List Change) (s : PagingState) : Prop where
  tree : Tree m c s
  foreign : c.foreign s = T
  reached : (c.forest s).follow addr p c.root = some f
  grown : ∃ F, WellFormed addr c.root 3 F ∧ Grown F changes (c.forest s) ∧
    ∀ q, q.length = 4 → F.find addr q c.root = L q
  /-- Below a new table there is nothing yet. -/
  fresh : changes ≠ [] → ∀ j, (c.forest s).row f j = none

section

variable {m : Machine} {c : Space} {L : Pages} {T : List PageTableMetadata} {p : List Nat}
  {s : PagingState} {s' : PagingState} {f i k : Nat} {d : Descriptor} {changes : List Change}

theorem Grown.find_eq {F G : Forest Nat Descriptor} (h : Grown F changes G)
    (hwf : WellFormed addr c.root 3 F) : WellFormed addr c.root 3 G ∧ ∀ q, q.length = 4 →
      G.find addr q c.root = F.find addr q c.root := by
  induction h with
  | base => exact ⟨hwf, fun q _ => rfl⟩
  | hang rest hf hi hd hrow ih =>
    obtain ⟨hG, hfind⟩ := ih
    refine ⟨hG.attach hf hi hd, fun q hq => ?_⟩
    rw [find_attach hG hf hi hd hG.atRoot (by rw [hq]), hfind q hq]

theorem Walk.kept (h : Walk m c L T p f changes s) : Kept m c L T s := by
  obtain ⟨F, hwf, hgrown, hfind⟩ := h.grown
  exact ⟨h.tree, h.foreign, fun q hq => ((hgrown.find_eq hwf).2 q hq).trans (hfind q hq)⟩

theorem Kept.walk (h : Kept m c L T s) : Walk m c L T [] c.root [] s :=
  ⟨h.tree, h.foreign, rfl, ⟨c.forest s, h.tree.wf, .base, h.leaf⟩, fun hne => absurd rfl hne⟩

theorem Kept.detach (h : Kept m c L T s) (hf : c.height s f = some (k + 1))
    (hd : (c.forest s).row f i = some d) (hempty : ∀ j, (c.forest s).row d.addr j = none) :
    Kept m c L T (s.detached f i d.addr) := by
  refine ⟨h.tree.detach hf hd hempty, (foreign_detached h.tree hf hd).trans h.foreign, ?_⟩
  intro q hq
  show (c.forest _).find _ q c.root = L q
  rw [forest_detached h.tree hf hd hempty,
    find_detach h.tree.wf hf hd hempty h.tree.wf.atRoot (by rw [hq])]
  exact h.leaf q hq

/-- The tables above stay as they are. -/
theorem Tree.detach_above (h : Tree m c s) (hf : c.height s f = some (k + 1))
    (hd : (c.forest s).row f i = some d) (hempty : ∀ j, (c.forest s).row d.addr j = none)
    {g j : Nat} (hg : c.height s g = some j) (hj : k + 1 < j) :
    c.height (s.detached f i d.addr) g = some j ∧
      ∀ i', (c.forest (s.detached f i d.addr)).row g i' = (c.forest s).row g i' := by
  have hchild := (h.child_facts hf hd).1
  have hgc : g ≠ d.addr := WellFormed.ne_of_height (F := c.forest s) hg hchild (by omega)
  have hgf : g ≠ f := WellFormed.ne_of_height (F := c.forest s) hg hf (by omega)
  refine ⟨?_, fun i' => ?_⟩
  · rw [height_detached h hf hd, if_neg hgc]
    exact hg
  · rw [forest_detached h hf hd hempty, row_detach, row_write_of_ne (fun hself => hgf hself.1)]

theorem Walk.height (h : Walk m c L T p f changes s) (hk : p.length + k = 3) :
    c.height s f = some k :=
  h.tree.wf.height_follow (f := c.root) (by rw [h.tree.wf.atRoot, hk]) h.reached

/-! ## §2. States that look the same. -/

/-- A change of the clock, of unused frames and of the logs is not seen. -/
theorem Tree.congr (h : Tree m c s) (htables : s'.tables = s.tables)
    (hforest : c.forest s' = c.forest s) (hin : ∀ x ∈ s.inUse, x ∈ s'.inUse) : Tree m c s' := by
  have hfind : s'.findTable = s.findTable := by
    funext x
    unfold findTable
    rw [htables]
  have hheight : c.height s' = c.height s := by
    funext x
    unfold height
    rw [hfind]
  have hframes : s'.frames = s.frames := by
    unfold frames
    rw [htables]
  refine ⟨?_, ?_, ?_, hin _ h.rootInUse, ?_, ?_, ?_, ?_, ?_⟩ <;>
    simp only [hfind, hheight, hforest, hframes]
  exacts [h.wf, h.nodup, fun x hx => hin x (h.inUse x hx), h.rootSlot, h.node, h.direct, h.small,
    h.count]

theorem Walk.congr (h : Walk m c L T p f changes s) (htables : s'.tables = s.tables)
    (hmem : ∀ x j, x ∈ s.inUse → s'.mem x j = s.mem x j) (hin : ∀ x ∈ s.inUse, x ∈ s'.inUse) :
    Walk m c L T p f changes s' := by
  have hforest : c.forest s' = c.forest s := by
    apply forest_ext
    · intro x
      unfold Space.height findTable
      rw [htables]
    · intro x j hx
      obtain ⟨k, hk⟩ := Option.isSome_iff_exists.mp hx
      exact hmem x j (h.tree.height_inUse hk)
  refine ⟨h.tree.congr htables hforest hin, ?_, ?_, ?_, ?_⟩
  · unfold Space.foreign
    rw [htables]
    exact h.foreign
  · rw [hforest]
    exact h.reached
  · rw [hforest]
    exact h.grown
  · rw [hforest]
    exact h.fresh

/-! ## §3. Rolling back. -/

/-- A present entry of a table can be counted out of it. -/
theorem Tree.decrement_eq (h : Tree m c s) (hf : c.height s f = some k)
    (hd : (c.forest s).row f i = some d) (e : Descriptor) :
    (s.write f i e).decrementPresentEntry f =
      some ((s.write f i e).setPresentEntries f (s.presentEntries f - 1)) := by
  have hi : c.inSlots f i := ((row_eq_some (by rw [hf]; rfl)).mp hd).1
  exact decrementPresentEntry_eq (s := s.write f i e) (f := f) (h.count_pos hf (inSlots_lt hi) hd)

theorem clearChange_eq (h : Tree m c s) (hf : c.height s f = some (k + 1))
    (hd : (c.forest s).row f i = some d) :
    s.clearChange ⟨f, i, d.addr⟩ = s.detached f i d.addr := by
  have hdec := h.decrement_eq hf hd zero
  unfold clearChange detached
  simp only [hdec, Option.getD_some]
  rfl

/-- `clear_owned_paging_descriptors` gives the address space back as it was. -/
theorem clearOwned_spec {F G : Forest Nat Descriptor} (hg : Grown F changes G) :
    ∀ s, Tree m c s → c.forest s = G →
      Tree m c (s.clearOwned changes) ∧ c.forest (s.clearOwned changes) = F ∧
        c.foreign (s.clearOwned changes) = c.foreign s := by
  induction hg with
  | base => exact fun s h hG => ⟨h, hG, rfl⟩
  | @hang changes G f i k d rest hf hi hd hrow ih =>
    intro s h hG
    have hne : d.addr ≠ f := fun heq => by
      rw [heq, hf] at hd
      cases hd
    -- The newest table is still empty, so it can be cut off.
    have hheight : c.height s f = some (k + 1) := by
      show (c.forest s).height f = _
      rw [hG, height_attach_of_ne hne.symm, hf]
    have hself : (c.forest s).row f i = some d := by rw [hG, row_attach_self]
    have hempty : ∀ j, (c.forest s).row d.addr j = none := by
      intro j
      rw [hG, row_attach_new hne]
    have hback : c.forest (s.detached f i d.addr) = G := by
      rw [forest_detached h hheight hself hempty, hG, detach_attach hi hd hrow hne]
    obtain ⟨htree, hforest, hforeign⟩ := ih _ (h.detach hheight hself hempty) hback
    have hstep : s.clearOwned (changes ++ [⟨f, i, d.addr⟩]) =
        (s.detached f i d.addr).clearOwned changes := by
      unfold clearOwned
      rw [reverse_append]
      show List.foldl _ (s.clearChange ⟨f, i, d.addr⟩) changes.reverse = _
      rw [clearChange_eq h hheight hself]
    rw [hstep]
    exact ⟨htree, hforest, hforeign.trans (foreign_detached h hheight hself)⟩

theorem Walk.rollback (h : Walk m c L T p f changes s) : Kept m c L T (s.clearOwned changes) := by
  obtain ⟨F, _, hgrown, hfind⟩ := h.grown
  obtain ⟨htree, hforest, hforeign⟩ := clearOwned_spec hgrown s h.tree rfl
  refine ⟨htree, hforeign.trans h.foreign, fun q hq => ?_⟩
  show (c.forest _).find _ q c.root = L q
  rw [hforest, hfind q hq]

/-! ## §4. One level of the walk. -/

/-- The path below a table: the levels match what is left of the way. -/
def Levels : List (Nat × PageTableLevel) → Prop
  | [] => True
  | (i, level) :: path =>
    level.height = path.length ∧ level ≠ .pml4 ∧ i < TABLE_ENTRIES ∧ Levels path

/-- Set the user bit of a descriptor. -/
def Descriptor.withUser (d : Descriptor) : Descriptor :=
  { d with attr := { d.attr with user := true } }

/-- A present entry is kept; at most its user bit is set. -/
theorem ensure_present (changes : List Change) (attr : PageAttr) (root : Nat)
    (owner : PageTableOwner) (level : PageTableLevel) (hp : (s.mem f i).present) :
    ∃ e, (e = s.mem f i ∨ e = (s.mem f i).withUser) ∧
      ensureOwnedDescriptor m s f i attr root owner level changes =
        (true, s.write f i e, changes) := by
  unfold ensureOwnedDescriptor
  by_cases hu : (attr.user && !(s.mem f i).attr.user)
  · refine ⟨(s.mem f i).withUser, .inr rfl, ?_⟩
    simp only [hp, hu, if_true]
    rfl
  · refine ⟨s.mem f i, .inl rfl, ?_⟩
    simp only [hp, if_true, if_neg hu, write, Function.update_eq_self]

/-- An absent entry: a fresh table is hung there, or only unused memory changed. -/
theorem ensure_absent (h : Tree m c s) (changes : List Change) (attr : PageAttr)
    (level : PageTableLevel)
    (hf : c.height s f = some k) (hi : c.inSlots f i) (hp : (s.mem f i).present = false) :
    (∃ g, g ∉ s.inUse ∧ m.directMapped g ∧ m.alloc s.clock s.inUse = some g ∧
      s.tables.length < PAGE_TABLE_METADATA_CAPACITY ∧
      ensureOwnedDescriptor m s f i attr c.root c.owner level changes =
        (true, s.attached c f i g level attr, changes ++ [⟨f, i, g⟩])) ∨
    ∃ s', ensureOwnedDescriptor m s f i attr c.root c.owner level changes = (false, s', changes) ∧
      s'.tables = s.tables ∧ (∀ x j, x ∈ s.inUse → s'.mem x j = s.mem x j) ∧
      (∀ x ∈ s.inUse, x ∈ s'.inUse) ∧ ¬((∃ g, m.alloc s.clock s.inUse = some g ∧ m.directMapped g) ∧
        s.tables.length < PAGE_TABLE_METADATA_CAPACITY) := by
  have hrow : (c.forest s).row f i = none := (row_eq_none (by rw [hf]; rfl) hi).mpr hp
  have hlt := h.count_lt hf (inSlots_lt hi) hrow
  unfold ensureOwnedDescriptor allocFrame
  cases halloc : m.alloc s.clock s.inUse with
  | none =>
    right
    refine ⟨{ s with clock := s.clock + 1 }, ?_, rfl, fun _ _ _ => rfl, fun _ hx => hx, ?_⟩
    · simp [hp]
    · rintro ⟨⟨g, hg, _⟩, _⟩
      cases hg
  | some g =>
    have hg : g ∉ s.inUse := m.alloc_fresh _ _ _ halloc
    have hgx : ∀ x ∈ s.inUse, x ≠ g := fun x hx heq => hg (heq ▸ hx)
    by_cases hdm : m.directMapped g
    · by_cases hcap : s.tables.length < PAGE_TABLE_METADATA_CAPACITY
      · -- The table is registered and published; the parent's count is below its limit.
        left
        have hreg : ((s.withFrame g).clearTable g).registerTable c.root g c.owner level =
            some (((s.withFrame g).clearTable g).addSlot ⟨c.owner, level, c.root, g, 0⟩) :=
          registerTable_eq_some.mpr ⟨h.findTable_fresh hg, hcap, rfl⟩
        have hne : f ≠ g := fun heq => hg (heq ▸ h.height_inUse hf)
        have hcount : (s.published c f i g level attr).presentEntries f < TABLE_ENTRIES := by
          unfold presentEntries
          rw [findTable_published level attr (h.findTable_fresh hg), if_neg hne]
          exact hlt
        have hinc : ((((s.withFrame g).clearTable g).addSlot ⟨c.owner, level, c.root, g, 0⟩).write
            f i ⟨g, attr⟩).incrementPresentEntry f = some (s.attached c f i g level attr) :=
          incrementPresentEntry_eq hcount
        refine ⟨g, hg, hdm, rfl, hcap, ?_⟩
        simp [hp, hdm, hreg, hinc]
      · right
        have hreg : ((s.withFrame g).clearTable g).registerTable c.root g c.owner level = none := by
          unfold registerTable
          split
          · rfl
          · exact if_neg hcap
        refine ⟨((s.withFrame g).clearTable g).freeFrame g, ?_, rfl, ?_, ?_, fun hno => hcap hno.2⟩
        · simp [hp, hdm, hreg]
        · intro x j hx
          show ((s.withFrame g).clearTable g).mem x j = s.mem x j
          rw [mem_clearTable, if_neg (hgx x hx)]
          rfl
        · intro x hx
          exact mem_inUse_freeFrame.mpr ⟨mem_cons_of_mem _ hx, hgx x hx⟩
    · right
      refine ⟨(s.withFrame g).freeFrame g, ?_, rfl, fun _ _ _ => rfl, ?_, ?_⟩
      · simp [hp, hdm]
      · intro x hx
        exact mem_inUse_freeFrame.mpr ⟨mem_cons_of_mem _ hx, hgx x hx⟩
      · rintro ⟨⟨g', hg', hdm'⟩, _⟩
        exact hdm (Option.some.inj hg' ▸ hdm')

/-- The next `n` tables can be had: there are slots, and the page allocator
answers with frames of the direct map. -/
def Supplied (m : Machine) (s : PagingState) (n : Nat) : Prop :=
  s.tables.length + n ≤ PAGE_TABLE_METADATA_CAPACITY ∧ ∀ t used, s.clock ≤ t → t < s.clock + n →
      ∃ g, m.alloc t used = some g ∧ m.directMapped g

/-- From `s` to `s'` there are `n` more tables, each of one request. -/
def Spent (s s' : PagingState) (n : Nat) : Prop :=
  s'.tables.length = s.tables.length + n ∧ s'.clock = s.clock + n

theorem Spent.trans {s'' : PagingState} {n j : Nat} (h : Spent s s' n) (h' : Spent s' s'' j) :
    Spent s s'' (j + n) := by
  unfold Spent at *
  omega

theorem Supplied.next {n j : Nat} (h : Supplied m s (n + j)) (hspent : Spent s s' j) :
    Supplied m s' n := by
  obtain ⟨htables, hclock⟩ := hspent
  refine ⟨by have := h.1; omega, fun t used hlo hhi => h.2 t used ?_ ?_⟩
  · omega
  · omega

theorem Supplied.mono {n j : Nat} (h : Supplied m s n) (hj : j ≤ n) : Supplied m s j :=
  ⟨by have := h.1; omega, fun t used hlo hhi => h.2 t used hlo (by omega)⟩

/-- One level: the walk goes on below, or it stays and a table was refused. -/
theorem Walk.ensure (h : Walk m c L T p f changes s) (hlen : p.length + (k + 1) = 3)
    (hi : c.inSlots f i) {level : PageTableLevel} (hk : level.height = k)
    (hl : level ≠ .pml4) {attr : PageAttr} (hp : attr.present) (hsmall : attr.large = false) :
    (∃ s' changes' d, ensureOwnedDescriptor m s f i attr c.root c.owner level changes =
        (true, s', changes') ∧ s'.mem f i = d ∧ Walk m c L T (p ++ [i]) d.addr changes' s' ∧
        ∀ q : List Nat, q.length = k → ∃ j, (c.forest s).missing addr (i :: q) f =
            (c.forest s').missing addr q d.addr + j ∧ Spent s s' j) ∨
    ∃ s', ensureOwnedDescriptor m s f i attr c.root c.owner level changes = (false, s', changes) ∧
      Walk m c L T p f changes s' ∧ (c.forest s).row f i = none ∧ ¬Supplied m s 1 := by
  have hf := h.height hlen
  have hnode : (c.height s f).isSome := by
    rw [hf]
    rfl
  have hstep : ∀ (G : Forest Nat Descriptor) (d : Descriptor),
      G.follow addr p c.root = some f → G.row f i = some d →
      G.follow addr (p ++ [i]) c.root = some d.addr := by
    intro G d hfollow hrow
    rw [Forest.follow_append, hfollow]
    show (G.row f i).bind _ = _
    rw [hrow]
    rfl
  by_cases hpres : (s.mem f i).present
  · -- The table is there; at most the user bit of its entry changes.
    left
    obtain ⟨e, he, hens⟩ := ensure_present (m := m) changes attr c.root c.owner level hpres
    have hrow : (c.forest s).row f i = some (s.mem f i) := (row_eq_some hnode).mpr ⟨hi, hpres, rfl⟩
    have hsame : e.addr = (s.mem f i).addr ∧ e.present ∧ e.attr.large = (s.mem f i).attr.large := by
      rcases he with rfl | rfl
      · exact ⟨rfl, hpres, rfl⟩
      · exact ⟨rfl, hpres, rfl⟩
    have hlinks := row_relabel hrow hsame.1
    obtain ⟨htree, hforest⟩ := h.tree.replace hf hrow hsame.2.1
      (h.tree.wf.congr fun g _ j _ => hlinks g j) fun _ =>
      hsame.2.2.trans (h.tree.small f k i _ hf hrow)
    have hrow' : (c.forest (s.write f i e)).row f i = some e := by rw [hforest, row_write_self]
    -- Nothing has been created so far: a new table has no present entry.
    have hnil : changes = [] := by
      by_contra hne
      have := h.fresh hne i
      rw [hrow] at this
      cases this
    subst hnil
    refine ⟨s.write f i e, [], e, hens, ?_, ⟨htree, h.foreign, ?_, ?_, fun hne => absurd rfl hne⟩,
      ?_⟩
    · rw [mem_write, if_pos ⟨rfl, rfl⟩]
    · apply hstep _ e _ hrow'
      rw [hforest, (follow_of_targets hlinks _ _).1]
      exact h.reached
    · refine ⟨c.forest (s.write f i e), htree.wf, .base, fun q hq => ?_⟩
      rw [hforest, find_relabel h.tree.wf hf hrow hsame.1 hq]
      exact h.kept.leaf q hq
    · intro q _
      refine ⟨0, ?_, rfl, rfl⟩
      rw [hforest, (follow_of_targets hlinks _ _).2, hsame.1, Forest.missing_cons_some hrow]
      rfl
  · have habs : (s.mem f i).present = false := by simpa using hpres
    have hrow : (c.forest s).row f i = none := (row_eq_none hnode hi).mpr habs
    rcases ensure_absent h.tree changes attr level hf hi habs with
      ⟨g, hg, hdirect, _, _, hens⟩ | ⟨s', hens, htables, hmem, hin, hno⟩
    · left
      have hheight := h.tree.height_fresh hg
      have hforest := forest_attached level attr h.tree hf hi hg hp hk hl
      have htree := h.tree.attach level attr hf hi hrow hg hdirect hp hsmall hk hl
      have hne : addr ⟨g, attr⟩ ≠ f := by
        intro heq
        exact hg ((show g = f from heq) ▸ h.tree.height_inUse hf)
      have hempty : ∀ j, (c.forest (s.attached c f i g level attr)).row g j = none := by
        intro j
        rw [hforest]
        exact row_attach_new hne j
      refine ⟨s.attached c f i g level attr, changes ++ [⟨f, i, g⟩], ⟨g, attr⟩, hens, ?_,
        ⟨htree, ?_, ?_, ?_, fun _ => hempty⟩, ?_⟩
      · rw [mem_attached, if_pos ⟨rfl, rfl⟩]
      · rw [foreign_attached level attr h.tree hf hg]
        exact h.foreign
      · apply hstep
        · rw [hforest]
          exact follow_attach (d := (⟨g, attr⟩ : Descriptor)) h.tree.wf hrow hheight (j := k + 1)
            (by rw [h.tree.wf.atRoot, hlen]) h.reached
        · rw [hforest, row_attach_self]
      · obtain ⟨F, hwf, hgrown, hfind⟩ := h.grown
        refine ⟨F, hwf, ?_, hfind⟩
        rw [hforest]
        exact .hang (d := ⟨g, attr⟩) hgrown hf hrow hheight (fun j => row_of_height_none hheight)
      · intro q hq
        refine ⟨1, ?_, by show (List.map _ (s.tables ++ [_])).length = _; simp, rfl⟩
        have hmiss : (c.forest (s.attached c f i g level attr)).missing addr q g = q.length := by
          cases q with
          | nil => rfl
          | cons i' => rw [Forest.missing_cons_none (hempty i'), length_cons]
        rw [Forest.missing_cons_none hrow, hmiss]
    · right
      refine ⟨s', hens, h.congr htables hmem hin, hrow, fun hsup => hno ⟨?_, ?_⟩⟩
      · exact hsup.2 s.clock s.inUse (Nat.le_refl _) (Nat.lt_succ_self _)
      · exact hsup.1

/-! ## §5. The whole walk. -/

/-- The entries of a table below the root are the 512 of the table. -/
theorem Walk.inSlots (h : Walk m c L T p f changes s) (hlen : p.length + k = 3) (hk : k < 3)
    (hi : i < TABLE_ENTRIES) : c.inSlots f i := by
  have hroot : f ≠ c.root :=
    WellFormed.ne_of_height (F := c.forest s) (h.height hlen) h.tree.wf.atRoot (by omega)
  exact inSlots_of_ne hroot hi

/-- The walk reaches the page table, or it fails for want of a table and
leaves the address space as it was. -/
theorem descend_spec (checked : Bool) (attr : PageAttr) (hp : attr.present)
    (hsmall : attr.large = false) {path : List (Nat × PageTableLevel)} (hpath : Levels path)
    (h : Walk m c L T p f changes s) (hlen : p.length + path.length = 3)
    (hslot : ∀ e ∈ path.head?, c.inSlots f e.1) :
    (∃ t s' changes', descend m checked attr c.root c.owner path f changes s =
        (some t, s', changes') ∧ Walk m c L T (p ++ path.map (·.1)) t changes' s' ∧
      Spent s s' ((c.forest s).missing addr (path.map (·.1)) f)) ∨
    ∃ s' changes', descend m checked attr c.root c.owner path f changes s = (none, s', changes') ∧
      Kept m c L T s' ∧ ¬Supplied m s ((c.forest s).missing addr (path.map (·.1)) f) := by
  induction path generalizing p f changes s with
  | nil =>
    refine .inl ⟨f, s, changes, rfl, ?_, rfl, rfl⟩
    rw [map_nil, append_nil]
    exact h
  | cons e path ih =>
    obtain ⟨i, level⟩ := e
    obtain ⟨hk, hl, _, hrest⟩ := hpath
    have hi : c.inSlots f i := hslot (i, level) rfl
    have hlen' : p.length + (path.length + 1) = 3 := hlen
    rcases h.ensure hlen' hi hk hl hp hsmall with
      ⟨s', changes', d, hens, hmem, hwalk, hcost⟩ | ⟨s', hens, hwalk, hrow, hno⟩
    · -- One level down; every table is in the direct map, so the check passes.
      have hlen'' : (p ++ [i]).length + path.length = 3 := by
        rw [length_append, length_singleton]
        omega
      have hdm : m.directMapped d.addr :=
        hwalk.tree.direct d.addr _ (hwalk.height hlen'') (by omega)
      have hstep : descend m checked attr c.root c.owner ((i, level) :: path) f changes s =
          descend m checked attr c.root c.owner path d.addr changes' s' := by
        rw [descend, hens]
        simp [hmem, hdm]
      have hnext : ∀ e ∈ path.head?, c.inSlots d.addr e.1 := by
        intro e he
        cases path with
        | nil => cases he
        | cons e' =>
          obtain rfl : e' = e := by simpa using he
          exact hwalk.inSlots hlen'' (by omega) hrest.2.2.1
      obtain ⟨j, hmiss, hspent⟩ := hcost (path.map (·.1)) (by simp)
      rw [map_cons, hmiss]
      rcases ih hrest hwalk hlen'' hnext with
        ⟨t, s'', changes'', hdesc, hfinal, hspent'⟩ | ⟨s'', changes'', hdesc, hkept, hno⟩
      · refine .inl ⟨t, s'', changes'', hstep.trans hdesc, ?_, hspent.trans hspent'⟩
        rw [append_assoc] at hfinal
        exact hfinal
      · exact .inr ⟨s'', changes'', hstep.trans hdesc, hkept, fun hsup => hno (hsup.next hspent)⟩
    · refine .inr ⟨s'.clearOwned changes, [], ?_, hwalk.rollback, fun hsup => hno ?_⟩
      · rw [descend, hens]
      · rw [map_cons, Forest.missing_cons_none hrow] at hsup
        exact hsup.mono (by omega)

/-! ## §6. Publishing the leaf. -/

/-- The pages after `d` has been mapped at a path. -/
def Pages.map (L : Pages) (q : List Nat) (d : Option Descriptor) : Pages :=
  fun q' => if q' = q then d else L q'

section

variable (h : Kept m c L T s) (hf : (c.forest s).follow addr p c.root = some f)
  (hlen : p.length = 3)

include h hf hlen

/-- The entry of a page table is what the page maps to. -/
theorem Kept.row_eq : (c.forest s).row f i = L (p ++ [i]) := by
  rw [← h.leaf (p ++ [i]) (by rw [length_append, hlen]; rfl)]
  show _ = (c.forest s).find _ (p ++ [i]) c.root
  rw [Forest.find_append _ p (by simp), hf]
  rfl

theorem Kept.setLeaf {o : Option Descriptor} (htree : Tree m c s')
    (hforeign : c.foreign s' = c.foreign s) (hforest : c.forest s' = (c.forest s).write f i o) :
    Kept m c (L.map (p ++ [i]) o) T s' := by
  refine ⟨htree, hforeign.trans h.foreign, fun q hq => ?_⟩
  show (c.forest s').find _ q c.root = _
  rw [hforest, find_setLeaf h.tree.wf _ hf hlen hq]
  exact if_congr Iff.rfl rfl (h.leaf q hq)

end

/-- The last step: the leaf is written, unless a page is mapped there already. -/
theorem publishLeaf_spec (h : Walk m c L T p f changes s) (hlen : p.length = 3)
    (hi : i < TABLE_ENTRIES) (hd : d.present) :
    (∃ s', publishLeaf s f i d changes = (true, s') ∧ L (p ++ [i]) = none ∧
      Kept m c (L.map (p ++ [i]) (some d)) T s' ∧ Spent s s' 0) ∨
    ∃ s', publishLeaf s f i d changes = (false, s') ∧ L (p ++ [i]) ≠ none ∧ Kept m c L T s' := by
  have hf : c.height s f = some 0 := h.height hlen
  have hslot : c.inSlots f i := h.inSlots (k := 0) hlen (by omega) hi
  have hnode : (c.height s f).isSome := by
    rw [hf]
    rfl
  have hold : (c.forest s).row f i = L (p ++ [i]) := h.kept.row_eq h.reached hlen
  unfold publishLeaf
  by_cases hpres : (s.mem f i).present
  · -- Refused; a new page table would have been empty, so nothing was created.
    right
    have hrow : (c.forest s).row f i = some (s.mem f i) :=
      (row_eq_some hnode).mpr ⟨hslot, hpres, rfl⟩
    refine ⟨s.clearOwned changes, by rw [if_pos hpres], ?_, h.rollback⟩
    rw [← hold, hrow]
    simp
  · left
    have habs : (s.mem f i).present = false := by simpa using hpres
    have hrow : (c.forest s).row f i = none := (row_eq_none hnode hslot).mpr habs
    have hinc := incrementPresentEntry_eq (s := s.write f i d) (f := f) (h.tree.count_lt hf hi hrow)
    refine ⟨(s.write f i d).setPresentEntries f (s.presentEntries f + 1), ?_, hold ▸ hrow,
      h.kept.setLeaf h.reached hlen (h.tree.fillLeaf hf hslot hrow hd)
        (foreign_rewrite h.tree hf) ?_, length_map _, rfl⟩
    · rw [if_neg hpres]
      dsimp only
      rw [hinc]
      rfl
    · have hseen : d.seen = some d := if_pos hd
      rw [forest_rewrite hf hslot, hseen]

end

/-! ## §7. Reading a path. -/

section Reading

variable {m : Machine} {c : Space} {s : PagingState} {f i k : Nat}

/-- One step of a walk that reads: an absent entry ends it. -/
theorem Space.follow_cons (hf : c.height s f = some k) (hi : c.inSlots f i) (p : List Nat) :
    (c.forest s).follow addr (i :: p) f =
      if (s.mem f i).present then (c.forest s).follow addr p (s.mem f i).addr
      else none := by
  show ((c.forest s).row f i).bind _ = _
  rw [row_def, hf, hi]
  cases (s.mem f i).present <;> rfl

/-- A present entry of an inner table leads to a table below it. -/
theorem Tree.below (h : Tree m c s) (hf : c.height s f = some (k + 1))
    (hi : c.inSlots f i) (hp : (s.mem f i).present) :
    c.height s (s.mem f i).addr = some k ∧ (s.mem f i).attr.large = false ∧
      ∀ j < TABLE_ENTRIES, c.inSlots (s.mem f i).addr j := by
  have hrow : (c.forest s).row f i = some (s.mem f i) :=
    (row_eq_some (by rw [hf]; rfl)).mpr ⟨hi, hp, rfl⟩
  obtain ⟨hchild, _, hroot, _⟩ := h.child_facts hf hrow
  exact ⟨hchild, h.small f k i _ hf hrow, fun j hj => inSlots_of_ne hroot hj⟩

end Reading

/-! ## §8. One page. -/

/-- The path of the page table of an address. -/
def tablePath (vaddr : Nat) : List Nat := [pml4Index vaddr, pdptIndex vaddr, pdIndex vaddr]

/-- The path of the page of an address. -/
def pagePath (vaddr : Nat) : List Nat := tablePath vaddr ++ [ptIndex vaddr]

theorem pathOf_map (vaddr : Nat) : (pathOf vaddr).map (·.1) = tablePath vaddr := rfl

theorem mod_entries_lt (n : Nat) : n % TABLE_ENTRIES < TABLE_ENTRIES :=
  Nat.mod_lt n (by show 0 < 512; omega)

theorem pdptIndex_lt (vaddr : Nat) : pdptIndex vaddr < TABLE_ENTRIES := mod_entries_lt _

theorem pdIndex_lt (vaddr : Nat) : pdIndex vaddr < TABLE_ENTRIES := mod_entries_lt _

theorem ptIndex_lt (vaddr : Nat) : ptIndex vaddr < TABLE_ENTRIES := mod_entries_lt _

theorem levels_pathOf (vaddr : Nat) : Levels (pathOf vaddr) :=
  ⟨rfl, by simp, mod_entries_lt _, rfl, by simp, pdptIndex_lt vaddr, rfl, by simp,
    pdIndex_lt vaddr, trivial⟩

/-- A page table and its entries. -/
theorem Tree.pageTable {m : Machine} {c : Space} {v t : Nat} (h : Tree m c s)
    (ht : (c.forest s).follow addr (tablePath v) c.root = some t) :
    c.height s t = some 0 ∧ c.inSlots t (ptIndex v) := by
  have hheight : c.height s t = some 0 :=
    h.wf.height_follow (f := c.root) (p := tablePath v) h.wf.atRoot ht
  refine ⟨hheight, inSlots_of_ne ?_ (ptIndex_lt v)⟩
  exact WellFormed.ne_of_height (F := c.forest s) hheight h.wf.atRoot (by omega)

/-- Behind a mapped page there is a page table. -/
theorem Kept.follow_of_mapped {m : Machine} {c : Space} {L : Pages} {T : List PageTableMetadata}
    {v : Nat} (h : Kept m c L T s) (hL : L (pagePath v) ≠ none) :
    ∃ t, (c.forest s).follow addr (tablePath v) c.root = some t := by
  rw [← h.leaf (pagePath v) rfl] at hL
  have hfind : c.leaf s (pagePath v) =
      ((c.forest s).follow addr (tablePath v) c.root).bind ((c.forest s).find addr [ptIndex v]) :=
    Forest.find_append _ (tablePath v) (by simp) c.root
  cases hfollow : (c.forest s).follow addr (tablePath v) c.root with
  | none =>
    rw [hfind, hfollow] at hL
    exact absurd rfl hL
  | some t => exact ⟨t, rfl⟩

/-- **Mapping a page**: it succeeds and maps exactly this page, or it leaves
the address space as it was, because the page was mapped or a table was
refused. -/
theorem mapPage_spec {m : Machine} {c : Space} {L : Pages} {T : List PageTableMetadata}
    (h : Kept m c L T s) (checked : Bool) {vaddr : Nat}
    (hv : c.inSlots c.root (pml4Index vaddr)) (phys : Nat) (attr : PageAttr) (hp : attr.present) :
    (∃ s', mapPage m checked c.owner c.root s vaddr phys attr = (true, s') ∧
      L (pagePath vaddr) = none ∧
      Kept m c (L.map (pagePath vaddr) (some ⟨descriptorAddr phys, attr⟩)) T s' ∧
      Spent s s' ((c.forest s).missing addr (tablePath vaddr) c.root)) ∨
    ∃ s', mapPage m checked c.owner c.root s vaddr phys attr = (false, s') ∧ Kept m c L T s' ∧
      (L (pagePath vaddr) ≠ none ∨
        ¬Supplied m s ((c.forest s).missing addr (tablePath vaddr) c.root)) := by
  have hslot : ∀ e ∈ (pathOf vaddr).head?, c.inSlots c.root e.1 := by
    intro e he
    obtain rfl : (pml4Index vaddr, PageTableLevel.pdpt) = e := by simpa [pathOf] using he
    exact hv
  unfold mapPage
  rcases descend_spec checked (intermediateAttr attr) rfl rfl
    (levels_pathOf vaddr) h.walk rfl hslot with
    ⟨t, s', changes, hdesc, hwalk, hspent⟩ | ⟨s', changes, hdesc, hkept, hno⟩
  · rw [nil_append, pathOf_map] at hwalk
    simp only [hdesc]
    rcases publishLeaf_spec (d := ⟨descriptorAddr phys, attr⟩) hwalk rfl (ptIndex_lt vaddr) hp with
      ⟨s'', hpub, habs, hkept, hspent'⟩ | ⟨s'', hpub, hold, hkept⟩
    · refine .inl ⟨s'', hpub, habs, hkept, ?_⟩
      have htotal := hspent.trans hspent'
      rw [Nat.zero_add] at htotal
      exact htotal
    · exact .inr ⟨s'', hpub, hkept, .inl hold⟩
  · simp only [hdesc]
    exact .inr ⟨s', rfl, hkept, .inr hno⟩

end BigOS.Mm.Paging
