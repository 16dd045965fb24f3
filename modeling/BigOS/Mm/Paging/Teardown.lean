/-
  BigOS.Mm.Paging.Teardown — taking a user address space down.

  `teardown_user_low_half` is four nested loops; each empties one table, entry
  by entry, from the lower tables up.  One lemma describes a loop over a table
  from what its body does with one entry, and is used at all four levels.

  Main results:
    • `forEach_spec` — the loop,
    • `teardownEntry_spec`, `teardownLeaf_spec` — the bodies,
    • `teardownUserLowHalf_spec` — the lower half ends up empty, each leaf
      frame released and each table freed once.
-/
import BigOS.Mm.Paging.UserSpace

namespace BigOS.Mm.Paging

open BigOS.Lib.Radix BigOS.Lib.Slots PagingState Descriptor Space List

variable {qs : List (List Nat)} {items : Nat → List (List Nat)}

/-! ## §1. What taking down a part of the tree leaves. -/

/-- The pages without those below a path. -/
def Pages.cut (L : Pages) (p : List Nat) : Pages := fun q => if p <+: q then none else L q

/-- The frames of the pages of `L` at the paths `p ++ q`, in order. -/
def leafFrames (L : Pages) (p : List Nat) (qs : List (List Nat)) : List Nat :=
  qs.filterMap (fun q => (L (p ++ q)).map addr)

/-- From `s` to `s'` a part of the tree below height `k` has been taken down:
the pages `L'` are left, the leaf frames `rel` have been released, and the
tables that are gone have been freed. -/
structure Torn (m : Machine) (c : Space) (T : List PageTableMetadata) (L' : Pages) (k : Nat)
    (rel : List Nat) (s s' : PagingState) : Prop where
  kept : Kept m c L' T s'
  above : ∀ g j, c.height s g = some j → k < j →
    c.height s' g = some j ∧ ∀ i, (c.forest s').row g i = (c.forest s).row g i
  released : s'.released = s.released ++ rel
  freed : ∃ ts, s'.freed = s.freed ++ ts ∧ s.frames.Perm (ts ++ s'.frames)

section

variable {m : Machine} {c : Space} {T : List PageTableMetadata} {L L' : Pages}
  {level : PageTableLevel}
  {s s' s'' : PagingState} {p : List Nat} {f k i : Nat} {rel rel' : List Nat} {d : Descriptor}

theorem Kept.congr (h : Kept m c L T s) (hL : ∀ q, q.length = 4 → L' q = L q) : Kept m c L' T s :=
  ⟨h.tree, h.foreign, fun q hq => (h.leaf q hq).trans (hL q hq).symm⟩

theorem Torn.refl (h : Kept m c L T s) (k : Nat) : Torn m c T L k [] s s :=
  ⟨h, fun _ _ hg _ => ⟨hg, fun _ => rfl⟩, (append_nil _).symm, [], (append_nil _).symm,
    List.Perm.refl _⟩

theorem Torn.trans (h : Torn m c T L k rel s s') (h' : Torn m c T L' k rel' s' s'') :
    Torn m c T L' k (rel ++ rel') s s'' := by
  obtain ⟨ts, hts, hperm⟩ := h.freed
  obtain ⟨ts', hts', hperm'⟩ := h'.freed
  refine ⟨h'.kept, ?_, ?_, ts ++ ts', ?_, ?_⟩
  · intro g j hg hj
    obtain ⟨hg', hrow⟩ := h.above g j hg hj
    obtain ⟨hg'', hrow'⟩ := h'.above g j hg' hj
    exact ⟨hg'', fun i => (hrow' i).trans (hrow i)⟩
  · rw [h'.released, h.released, append_assoc]
  · rw [hts', hts, append_assoc]
  · rw [append_assoc]
    exact hperm.trans (hperm'.append_left ts)

/-- A table above the part taken down is still reached by its path. -/
theorem Torn.follow (h : Torn m c T L' k rel s s') (hs : Kept m c L T s) (hlen : p.length + k = 3)
    (hf : (c.forest s).follow addr p c.root = some f) :
    (c.forest s').follow addr p c.root = some f := by
  rw [hs.tree.wf.follow_congr (k := k) (fun g j i hg hj => (h.above g j hg hj).2 i)
    (by rw [hs.tree.wf.atRoot, hlen])]
  exact hf

theorem Kept.height (h : Kept m c L T s) (hlen : p.length + k = 3)
    (hf : (c.forest s).follow addr p c.root = some f) : c.height s f = some k :=
  h.tree.wf.height_follow (f := c.root) (by rw [h.tree.wf.atRoot, hlen]) hf

/-- An empty entry has no pages below it. -/
theorem Kept.none_below (h : Kept m c L T s) (hf : (c.forest s).follow addr p c.root = some f)
    (hrow : (c.forest s).row f i = none) {q : List Nat} (hq : (p ++ i :: q).length = 4) :
    L (p ++ i :: q) = none := by
  rw [← h.leaf _ hq]
  show (c.forest s).find _ (p ++ i :: q) c.root = none
  rw [Forest.find_append _ p (by simp), hf]
  show (c.forest s).find _ (i :: q) f = none
  cases q with
  | nil => exact hrow
  | cons =>
    rw [Forest.find_cons _ i (by simp), hrow]
    rfl

/-- Cutting an entry that has no pages below it changes nothing. -/
theorem Kept.cut_none (h : Kept m c L T s) (hf : (c.forest s).follow addr p c.root = some f)
    (hrow : (c.forest s).row f i = none) : Kept m c (L.cut (p ++ [i])) T s := by
  apply h.congr
  intro q hq
  unfold Pages.cut
  split
  · rename_i hbelow
    obtain ⟨r, rfl⟩ := hbelow
    rw [append_assoc] at hq ⊢
    exact (h.none_below hf hrow hq).symm
  · rfl

/-! ## §2. A loop over a table. -/

/-- What the body of a loop does with entry `i` of the table `f` of height `k`,
reached by `p`: `items i` are the paths below the entry. -/
def BodySpec (m : Machine) (c : Space) (T : List PageTableMetadata) (p : List Nat) (f k : Nat)
    (items : Nat → List (List Nat)) (body : PagingState → Nat → Bool × PagingState) : Prop :=
  ∀ L s i, c.inSlots f i → Kept m c L T s → (c.forest s).follow addr p c.root = some f →
    ∃ s', body s i = (true, s') ∧ Torn m c T (L.cut (p ++ [i])) k (leafFrames L p (items i)) s s' ∧
      (c.forest s').row f i = none ∧ ∀ j, j ≠ i → (c.forest s').row f j = (c.forest s).row f j

/-- The pages without those below some entries of a table. -/
def Pages.cutAll (L : Pages) (p : List Nat) (is : List Nat) : Pages :=
  fun q => if ∃ i ∈ is, p ++ [i] <+: q then none else L q

theorem leafFrames_cut {j : Nat} (hne : i ≠ j) (hqs : ∀ q ∈ qs, ∃ r, q = j :: r) :
    leafFrames (L.cut (p ++ [i])) p qs = leafFrames L p qs := by
  unfold leafFrames
  apply filterMap_congr
  intro q hq
  obtain ⟨r, rfl⟩ := hqs q hq
  unfold Pages.cut
  rw [if_neg (fun h => hne (by simpa using h))]

theorem leafFrames_cut_flatMap {is : List Nat} (hitems : ∀ i, ∀ q ∈ items i, ∃ r, q = i :: r)
    (hi : i ∉ is) :
    leafFrames (L.cut (p ++ [i])) p (is.flatMap items) = leafFrames L p (is.flatMap items) := by
  induction is with
  | nil => rfl
  | cons j is ih =>
    have hhead := leafFrames_cut (L := L) (p := p)
      (fun heq : i = j => hi (heq ▸ mem_cons_self)) (hitems j)
    have htail := ih (fun hmem => hi (mem_cons_of_mem _ hmem))
    unfold leafFrames at *
    rw [flatMap_cons, filterMap_append, filterMap_append, hhead, htail]

theorem Pages.cutAll_cons {is : List Nat} :
    (L.cut (p ++ [i])).cutAll p is = L.cutAll p (i :: is) := by
  funext q
  unfold cutAll cut
  simp only [exists_mem_cons_iff]
  by_cases hq : p ++ [i] <+: q
  · rw [if_pos hq, if_pos (Or.inl hq), ite_self]
  · rw [if_neg hq]
    exact if_congr (or_iff_right hq).symm rfl rfl

/-- A loop over some entries of a table takes down what is below them. -/
theorem forEach_spec {body : PagingState → Nat → Bool × PagingState}
    (hbody : BodySpec m c T p f k items body) (hitems : ∀ i, ∀ q ∈ items i, ∃ r, q = i :: r)
    (hlen : p.length + k = 3) (is : List Nat) (hnodup : is.Nodup)
    (his : ∀ i ∈ is, c.inSlots f i) (h : Kept m c L T s)
    (hf : (c.forest s).follow addr p c.root = some f) : ∃ s', forEach body is s = (true, s') ∧
      Torn m c T (L.cutAll p is) k (leafFrames L p (is.flatMap items)) s s' ∧
      ∀ j, (c.forest s').row f j = if j ∈ is then none else (c.forest s).row f j := by
  induction is generalizing L s with
  | nil =>
    refine ⟨s, rfl, Torn.refl (h.congr ?_) k, ?_⟩
    · exact fun q _ => if_neg (by simp)
    · intro j
      rw [if_neg (not_mem_nil)]
  | cons i is ih =>
    obtain ⟨hni, hnodup⟩ := nodup_cons.mp hnodup
    obtain ⟨s1, hs1, htorn1, hself, hother⟩ := hbody L s i (his i mem_cons_self) h hf
    obtain ⟨s2, hs2, htorn2, hrow2⟩ := ih hnodup
      (fun j hj => his j (mem_cons_of_mem _ hj)) htorn1.kept (htorn1.follow h hlen hf)
    -- The later entries are not touched by the first.
    have hrel := leafFrames_cut_flatMap (L := L) (p := p) hitems hni
    refine ⟨s2, ?_, ?_, ?_⟩
    · rw [forEach, hs1]
      exact hs2
    · have htorn := htorn1.trans htorn2
      rw [hrel, Pages.cutAll_cons] at htorn
      have hframes : leafFrames L p ((i :: is).flatMap items) =
          leafFrames L p (items i) ++ leafFrames L p (is.flatMap items) := by
        unfold leafFrames
        rw [flatMap_cons, filterMap_append]
      rw [hframes]
      exact htorn
    · intro j
      rw [hrow2]
      by_cases hji : j = i
      · rw [hji, hself, ite_self, if_pos mem_cons_self]
      · rw [hother j hji]
        exact if_congr (by simp [hji]) rfl rfl

/-! ## §3. The bodies. -/

/-- Nothing to do for an entry that is not present. -/
theorem torn_absent (h : Kept m c L T s) (hf : (c.forest s).follow addr p c.root = some f)
    (hrow : (c.forest s).row f i = none) (hqs : ∀ q ∈ qs, ∃ r, q = i :: r)
    (hlen : ∀ q ∈ qs, (p ++ q).length = 4) (k : Nat) :
    Torn m c T (L.cut (p ++ [i])) k (leafFrames L p qs) s s := by
  have hnone : leafFrames L p qs = [] := by
    unfold leafFrames
    rw [filterMap_eq_nil_iff]
    intro q hq
    obtain ⟨r, rfl⟩ := hqs q hq
    rw [h.none_below hf hrow (hlen _ hq)]
    rfl
  rw [hnone]
  exact Torn.refl (h.cut_none hf hrow) k

/-- The body of the innermost loop: the leaf is cleared and its frame released. -/
theorem teardownLeaf_spec (hlen : p.length = 3) :
    BodySpec m c T p f 0 (fun i => [[i]]) (teardownLeaf f) := by
  intro L s i hslot h hf
  have hheight : c.height s f = some 0 := h.height (k := 0) hlen hf
  have hnode : (c.height s f).isSome := by
    rw [hheight]
    rfl
  have hpath : (p ++ [i]).length = 4 := by rw [length_append, hlen]; rfl
  unfold teardownLeaf
  cases hpres : (s.mem f i).present with
  | false =>
    have hrow := (row_eq_none hnode hslot).mpr hpres
    refine ⟨s, by simp [hpres], ?_, hrow, fun j _ => rfl⟩
    exact torn_absent h hf hrow (by simp) (by simpa using hpath) 0
  | true =>
    have hrow : (c.forest s).row f i = some (s.mem f i) :=
      (row_eq_some hnode).mpr ⟨hslot, hpres, rfl⟩
    have hleaf : L (p ++ [i]) = some (s.mem f i) := (h.row_eq hf hlen).symm.trans hrow
    have hdec := h.tree.decrement_eq hheight hrow zero
    have htree := h.tree.clearLeaf hheight hrow
    have hforest : c.forest ((s.write f i zero).setPresentEntries f (s.presentEntries f - 1)) =
      (c.forest s).write f i none := forest_rewrite hheight hslot
    have hforeign :=
      foreign_rewrite (i := i) (n := s.presentEntries f - 1) (d := zero) h.tree hheight
    have hheights := height_rewrite (c := c) (s := s) (f := f) (i := i) (d := zero)
      (n := s.presentEntries f - 1)
    have hframes : ((s.write f i zero).setPresentEntries f (s.presentEntries f - 1)).frames =
      s.frames := frames_setPresentEntries
    obtain ⟨hreleased, hfreed⟩ :
      ((s.write f i zero).setPresentEntries f (s.presentEntries f - 1)).released = s.released ∧
        ((s.write f i zero).setPresentEntries f (s.presentEntries f - 1)).freed = s.freed :=
      ⟨rfl, rfl⟩
    generalize (s.write f i zero).setPresentEntries f (s.presentEntries f - 1) = s1 at *
    -- Releasing the frame does not touch the tables.
    have hrel : Tree m c (s1.releaseLeaf (s.mem f i).addr) := htree.congr rfl rfl fun x hx => hx
    have hkept := h.setLeaf hf hlen hrel hforeign hforest
    refine ⟨s1.releaseLeaf (s.mem f i).addr, ?_, ⟨hkept.congr fun q hq => ?_, ?_, ?_, ?_⟩, ?_, ?_⟩
    · simp [hpres, hdec]
    · refine if_congr ⟨fun hbelow => ?_, ?_⟩ rfl rfl
      · exact (hbelow.eq_of_length (hpath.trans hq.symm)).symm
      · rintro rfl
        exact prefix_refl _
    · intro g j hg hj
      refine ⟨(hheights g).trans hg, fun i' => ?_⟩
      have hgf : g ≠ f := WellFormed.ne_of_height (F := c.forest s) hg hheight (by omega)
      show (c.forest s1).row g i' = _
      rw [hforest, row_write_of_ne (fun hself => hgf hself.1)]
    · show s1.released ++ [(s.mem f i).addr] = s.released ++ leafFrames L p [[i]]
      unfold leafFrames
      rw [hreleased, filterMap_cons, hleaf]
      rfl
    · exact ⟨[], hfreed.trans (append_nil _).symm, .of_eq hframes.symm⟩
    · show (c.forest s1).row f i = none
      rw [hforest, row_write_self]
    · intro j hj
      show (c.forest s1).row f j = _
      rw [hforest, row_write_of_ne (fun hself => hj hself.2)]

/-- What emptying the table `f` of height `k`, reached by `p`, does: `qs` are
the paths below the table. -/
def Empties (m : Machine) (c : Space) (T : List PageTableMetadata) (p : List Nat) (f k : Nat)
    (qs : List (List Nat)) (act : PagingState → Bool × PagingState) : Prop :=
  ∀ L s, Kept m c L T s → (c.forest s).follow addr p c.root = some f →
    ∃ s', act s = (true, s') ∧ Torn m c T (L.cut p) k (leafFrames L p qs) s s' ∧
      ∀ j, (c.forest s').row f j = none

/-- The paths below an entry from the paths below its table. -/
def below (qs : List (List Nat)) (i : Nat) : List (List Nat) := qs.map (i :: ·)

/-- The body of an outer loop: the table below is emptied, cut off, counted
out, unregistered and freed. -/
theorem teardownEntry_spec {act : Nat → PagingState → Bool × PagingState}
    (howner : c.owner = .userAddressSpace) (hk : level.height = k) (hlen : p.length + (k + 1) = 3)
    (hqs : ∀ q ∈ qs, q.length = k + 1) (hbelow : ∀ i g, Empties m c T (p ++ [i]) g k qs (act g)) :
    BodySpec m c T p f (k + 1) (below qs) (teardownEntry m c.root level act f) := by
  intro L s i hslot h hf
  have hheight : c.height s f = some (k + 1) := h.height hlen hf
  have hnode : (c.height s f).isSome := by
    rw [hheight]
    rfl
  have hpaths : ∀ q ∈ below qs i, (∃ r, q = i :: r) ∧ (p ++ q).length = 4 := by
    intro q hq
    obtain ⟨r, hr, rfl⟩ := mem_map.mp hq
    refine ⟨⟨r, rfl⟩, ?_⟩
    rw [length_append, length_cons, hqs r hr]
    omega
  unfold teardownEntry
  cases hpres : (s.mem f i).present with
  | false =>
    have hrow : (c.forest s).row f i = none := by
      rw [row_def, hpres, Bool.and_false]
      rfl
    refine ⟨s, by simp [hpres], ?_, hrow, fun j _ => rfl⟩
    exact torn_absent h hf hrow (fun q hq => (hpaths q hq).1) (fun q hq => (hpaths q hq).2) (k + 1)
  | true =>
    have hrow : (c.forest s).row f i = some (s.mem f i) :=
      (row_eq_some hnode).mpr ⟨hslot, hpres, rfl⟩
    obtain ⟨_, _, hchild, hdm⟩ := h.tree.entry hheight hrow
    obtain ⟨_, hne, hroot, _⟩ := h.tree.child_facts hheight hrow
    have hsmall := h.tree.small f k i _ hheight hrow
    have howned := h.tree.owned hheight hrow level hk
    rw [howner] at howned
    have hfollow : (c.forest s).follow addr (p ++ [i]) c.root = some (s.mem f i).addr := by
      rw [Forest.follow_append, hf]
      show ((c.forest s).row f i).bind _ = _
      rw [hrow]
      rfl
    obtain ⟨s1, hact, htorn, hempty⟩ := hbelow i _ L s h hfollow
    -- The entry still leads to the table, which is empty now.
    obtain ⟨hheight1, hrows1⟩ := htorn.above f (k + 1) hheight (by omega)
    have hrow1 : (c.forest s1).row f i = some (s.mem f i) := (hrows1 i).trans hrow
    obtain ⟨_, _, hchild1, _⟩ := htorn.kept.tree.entry hheight1 hrow1
    obtain ⟨md, hmd, _⟩ := findTable_of_height hchild1 hroot
    have hcount := htorn.kept.tree.tableEmpty_of_row hchild1 hmd hempty
    have hforest := forest_detached htorn.kept.tree hheight1 hrow1 hempty
    refine ⟨s1.detached f i (s.mem f i).addr, ?_,
      ⟨htorn.kept.detach hheight1 hrow1 hempty, ?_, ?_, ?_⟩, ?_, ?_⟩
    · simp only [hpres, hsmall, howned, hdm (by omega), hact, hcount, Bool.not_true, Bool.and_false,
        Bool.false_eq_true, if_false, htorn.kept.tree.decrement_eq hheight1 hrow1 zero]
      rfl
    · intro g j hg hj
      obtain ⟨hg1, hrows⟩ := htorn.above g j hg (by omega)
      obtain ⟨hg2, hrows2⟩ := htorn.kept.tree.detach_above hheight1 hrow1 hempty hg1 hj
      exact ⟨hg2, fun i' => (hrows2 i').trans (hrows i')⟩
    · have hsame : leafFrames L (p ++ [i]) qs = leafFrames L p (below qs i) := by
        unfold leafFrames below
        rw [filterMap_map]
        apply filterMap_congr
        intro q _
        show (L ((p ++ [i]) ++ q)).map _ = (L (p ++ i :: q)).map _
        rw [append_assoc]
        rfl
      rw [← hsame]
      exact htorn.released
    · obtain ⟨ts, hts, hperm⟩ := htorn.freed
      refine ⟨ts ++ [(s.mem f i).addr], ?_, ?_⟩
      · show s1.freed ++ [_] = _
        rw [hts, append_assoc]
      · rw [append_assoc]
        exact hperm.trans ((frames_detached hmd).append_left ts)
    · rw [hforest, row_detach, row_write_self]
    · intro j hj
      rw [hforest, row_detach, row_write_of_ne (fun hself => hj hself.2)]
      exact hrows1 j

/-! ## §4. The levels. -/

/-- How many entries of a table of height `k` belong to the address space,
when it starts at the root's first one. -/
def Space.width (c : Space) (k : Nat) : Nat := if k = 3 then c.hi else TABLE_ENTRIES

theorem Tree.inSlots_iff (h : Tree m c s) (hlo : c.lo = 0) (hf : c.height s f = some k) :
    c.inSlots f i ↔ i < c.width k := by
  unfold width
  by_cases hk : k = 3
  · subst hk
    obtain rfl : f = c.root := h.wf.only f hf
    rw [if_pos rfl, inSlots_root, hlo]
    simp
  · have hne : f ≠ c.root := WellFormed.ne_of_height (F := c.forest s) hf h.wf.atRoot hk
    rw [if_neg hk]
    exact ⟨inSlots_lt, inSlots_of_ne hne⟩

/-- A loop over all entries of a table empties it. -/
theorem forEach_empties {body : PagingState → Nat → Bool × PagingState}
    (hbody : BodySpec m c T p f k items body) (hitems : ∀ i, ∀ q ∈ items i, ∃ r, q = i :: r)
    (hlen : p.length + k = 3) (hlo : c.lo = 0) :
    Empties m c T p f k ((range (c.width k)).flatMap items) (forEach body (range (c.width k))) := by
  intro L s h hf
  have hheight := h.height hlen hf
  have hslots : ∀ i, c.inSlots f i ↔ i < c.width k :=
    fun i => h.tree.inSlots_iff hlo hheight
  -- Outside its entries the table has none.
  have hout : ∀ i, ¬i < c.width k → (c.forest s).row f i = none := by
    intro i hi
    have hslot : c.inSlots f i = false := by
      rw [← Bool.not_eq_true, hslots]
      exact hi
    rw [row_def, hslot, Bool.and_false]
    rfl
  obtain ⟨s', hrun, htorn, hrow⟩ := forEach_spec hbody hitems hlen (range (c.width k))
    nodup_range (fun i hi => (hslots i).mpr (mem_range.mp hi)) h hf
  refine ⟨s', hrun, ⟨htorn.kept.congr ?_, htorn.above, htorn.released, htorn.freed⟩, ?_⟩
  · intro q hq
    unfold Pages.cut Pages.cutAll
    by_cases hp : p <+: q
    · rw [if_pos hp]
      obtain ⟨r, rfl⟩ := hp
      cases r with
      | nil =>
        rw [append_nil] at hq
        omega
      | cons j r =>
        by_cases hj : j < c.width k
        · have hex : ∃ i ∈ range (c.width k), p ++ [i] <+: p ++ j :: r :=
            ⟨j, mem_range.mpr hj, by simp⟩
          rw [if_pos hex]
        · rw [h.none_below hf (hout j hj) hq, ite_self]
    · have hnex : ¬∃ i ∈ range (c.width k), p ++ [i] <+: q := by
        rintro ⟨i, _, hi⟩
        exact hp ((prefix_append p [i]).trans hi)
      rw [if_neg hp, if_neg hnex]
  · intro j
    rw [hrow]
    split
    · rfl
    · rename_i hj
      exact hout j (fun hlt => hj (mem_range.mpr hlt))

/-- The paths below a table of height `k`, in the order of the addresses. -/
def Space.paths (c : Space) : Nat → List (List Nat)
  | 0 => (range (c.width 0)).flatMap (fun i => [[i]])
  | k + 1 => (range (c.width (k + 1))).flatMap (below (c.paths k))

theorem mem_below : ∀ i, ∀ q ∈ below qs i, ∃ r, q = i :: r := by
  intro i q hq
  obtain ⟨r, _, rfl⟩ := mem_map.mp hq
  exact ⟨r, rfl⟩

theorem Space.length_paths : ∀ q ∈ c.paths k, q.length = k + 1 := by
  induction k with
  | zero =>
    intro q hq
    obtain ⟨i, _, hq⟩ := mem_flatMap.mp hq
    rw [mem_singleton.mp hq]
    rfl
  | succ k ih =>
    intro q hq
    obtain ⟨i, _, hq⟩ := mem_flatMap.mp hq
    obtain ⟨r, hr, rfl⟩ := mem_map.mp hq
    rw [length_cons, ih r hr]

end

section

variable {m : Machine} {root cr3 : Nat} {T : List PageTableMetadata} {L : Pages} {s : PagingState}

theorem teardownPt_empties (p : List Nat) (hlen : p.length = 3) (f : Nat) :
    Empties m (userSpace root) T p f 0 ((userSpace root).paths 0) (teardownPt f) := by
  apply forEach_empties (k := 0) (teardownLeaf_spec hlen) _ hlen rfl
  intro i q hq
  exact ⟨[], mem_singleton.mp hq⟩

/-- A level above the leaves is emptied by a loop that empties the tables below. -/
theorem teardownLevel_empties {k : Nat}
    {act : Nat → PagingState → Bool × PagingState} (hk : level.height = k) (p : List Nat)
    (hlen : p.length + (k + 1) = 3) (f : Nat)
    (hbelow : ∀ i g, Empties m (userSpace root) T (p ++ [i]) g k ((userSpace root).paths k)
      (act g)) : Empties m (userSpace root) T p f (k + 1) ((userSpace root).paths (k + 1))
      (forEach (teardownEntry m root level act f) (range ((userSpace root).width (k + 1)))) :=
  forEach_empties (teardownEntry_spec (c := userSpace root) rfl hk hlen length_paths hbelow)
    mem_below hlen rfl

theorem teardownPd_empties (p : List Nat) (hlen : p.length = 2) (f : Nat) :
    Empties m (userSpace root) T p f 1 ((userSpace root).paths 1) (teardownPd m root f) := by
  show Empties m _ T p f _ _ (forEach (teardownEntry m root .pt teardownPt f) (range 512))
  exact teardownLevel_empties (k := 0) rfl p (by omega) f
    (fun i g => teardownPt_empties (p ++ [i]) (by rw [length_append, hlen]; rfl) g)

theorem teardownPdpt_empties (p : List Nat) (hlen : p.length = 1) (f : Nat) :
    Empties m (userSpace root) T p f 2 ((userSpace root).paths 2) (teardownPdpt m root f) := by
  show Empties m _ T p f _ _ (forEach (teardownEntry m root .pd (teardownPd m root) f) (range 512))
  exact teardownLevel_empties (k := 1) rfl p (by omega) f
    (fun i g => teardownPd_empties (p ++ [i]) (by rw [length_append, hlen]; rfl) g)

/-- The whole lower half. -/
theorem teardownUserLowHalf_spec (hroot : m.directMapped root) (h : Kept m (userSpace root) L T s) :
    ∃ s', teardownUserLowHalf m root s = (true, s') ∧
      Torn m (userSpace root) T (L.cut []) 3 (leafFrames L [] ((userSpace root).paths 3)) s s' ∧
      ∀ j, ((userSpace root).forest s').row root j = none := by
  have hloop : Empties m (userSpace root) T [] root 3 ((userSpace root).paths 3)
      (forEach (teardownEntry m root .pdpt (teardownPdpt m root) root) (range 256)) :=
    teardownLevel_empties (k := 2) rfl [] rfl root
      (fun i g => teardownPdpt_empties ([] ++ [i]) rfl g)
  obtain ⟨s', hrun, htorn, hempty⟩ := hloop L s h rfl
  obtain ⟨md, hmd, _⟩ := Option.map_eq_some_iff.mp (htorn.kept.tree.rootSlot)
  have htable := htorn.kept.tree.tableEmpty_of_row htorn.kept.tree.wf.atRoot hmd hempty
  refine ⟨s', ?_, htorn, hempty⟩
  unfold teardownUserLowHalf
  rw [hroot]
  simp only [hrun, Bool.not_true, Bool.false_eq_true, if_false]
  rw [show s'.tableEmpty root = true from htable]

/-! ## §5. The address space. -/

/-- Once the root has no entries it is the only table left. -/
theorem Tree.only_root {c : Space} (h : Tree m c s) (hempty : ∀ j, (c.forest s).row c.root j = none)
    {g k : Nat} (hg : c.height s g = some k) : g = c.root := by
  by_contra hne
  have hk : k < 3 := by
    have hle := h.wf.le g k hg
    by_contra hk
    obtain rfl : k = 3 := by omega
    exact hne (h.wf.only g hg)
  -- The chain of parents ends at an entry of the root.
  have hnone : ∀ n g k, c.height s g = some k → k + n + 1 = 3 → False := by
    intro n
    induction n with
    | zero =>
      intro g k hg hk
      obtain ⟨f, i, d, hf, hd, _⟩ := h.wf.parent g k hg (by omega)
      obtain rfl : f = c.root := h.wf.only f (by rw [hf]; congr 1)
      rw [hempty] at hd
      cases hd
    | succ n ih =>
      intro g k hg hk
      obtain ⟨f, i, d, hf, _, _⟩ := h.wf.parent g k hg (by omega)
      exact ih f (k + 1) hf (by omega)
  exact hnone (2 - k) g k hg (by omega)

/-- The slot of a table of the user address space of `root`. -/
def ownedByRoot (root : Nat) (md : PageTableMetadata) : Prop :=
  md.owner = .userAddressSpace ∧ md.rootPhys = root

instance (root : Nat) (md : PageTableMetadata) : Decidable (ownedByRoot root md) := by
  unfold ownedByRoot
  infer_instance

theorem mem_foreign {md : PageTableMetadata} :
    md ∈ (userSpace root).foreign s ↔ md ∈ s.tables ∧ ¬ownedByRoot root md := by
  unfold foreign ownedByRoot
  simp [userSpace, -not_and, not_and_or]

section

variable (hroot : m.directMapped root) (hcr3 : root ≠ cr3) (h : Kept m (userSpace root) L T s)

include hroot hcr3 h

/-- The lower half goes first, then the root itself. -/
theorem teardownUserAddressSpace_run :
    ∃ s1, teardownUserAddressSpace m cr3 s root = (true, (s1.unregisterTable root).freeFrame root) ∧
      Torn m (userSpace root) T (L.cut []) 3 (leafFrames L [] ((userSpace root).paths 3)) s s1 ∧
      ∀ j, ((userSpace root).forest s1).row root j = none := by
  obtain ⟨md0, hmd0, hkind0⟩ := Option.map_eq_some_iff.mp h.tree.rootSlot
  have howned : s.tableOwnedBy root root .userAddressSpace .pml4 := by
    rw [tableOwnedBy_iff]
    exact ⟨md0, hmd0, congrArg PageTableMetadata.owner hkind0,
      congrArg PageTableMetadata.level hkind0, congrArg PageTableMetadata.rootPhys hkind0⟩
  obtain ⟨s1, hlow, htorn, hempty⟩ := teardownUserLowHalf_spec hroot h
  refine ⟨s1, ?_, htorn, hempty⟩
  unfold teardownUserAddressSpace
  rw [if_neg hcr3, howned]
  simp [hlow]

theorem teardownUserAddressSpace_spec :
    ∃ s' ts, teardownUserAddressSpace m cr3 s root = (true, s') ∧
      (∀ md ∈ s'.tables, ¬ownedByRoot root md) ∧
      s'.released = s.released ++ leafFrames L [] ((userSpace root).paths 3) ∧
      s'.freed = s.freed ++ ts ∧ ts.Nodup ∧
      ∀ g, g ∈ ts ↔ ∃ md ∈ s.tables, md.framePhys = g ∧ ownedByRoot root md := by
  obtain ⟨s1, hrun, htorn, hempty⟩ := teardownUserAddressSpace_run hroot hcr3 h
  have htree := htorn.kept.tree
  obtain ⟨md1, hmd1, _⟩ := Option.map_eq_some_iff.mp htree.rootSlot
  obtain ⟨ts, hts, hperm⟩ := htorn.freed
  have hframes := frames_unregisterTable hmd1
  have hfind : ∀ g, (s1.unregisterTable root).findTable g =
      if g = root then none else s1.findTable g :=
    fun g => findTable_unregisterTable htree.nodup
  have hnodup2 := frames_unregisterTable_nodup (f := root) htree.nodup
  -- Only the root was left of the address space.
  have hgone : ∀ md ∈ (s1.unregisterTable root).tables, ¬ownedByRoot root md := by
    intro md hmd hown
    have hfound := findTable_of_mem hnodup2 hmd
    rw [hfind] at hfound
    split at hfound
    · cases hfound
    · rename_i hne
      obtain ⟨k, hk⟩ := Option.isSome_iff_exists.mp (htree.node _ md hfound hown.1 hown.2)
      exact hne (htree.only_root hempty hk)
  have hall : s.frames.Perm ((ts ++ [root]) ++ (s1.unregisterTable root).frames) := by
    rw [append_assoc]
    exact hperm.trans (hframes.append_left ts)
  have hnodup : ((ts ++ [root]) ++ (s1.unregisterTable root).frames).Nodup :=
    hall.nodup_iff.mp h.tree.nodup
  -- The tables of the others have stayed.
  have hforeign : ∀ md, ¬ownedByRoot root md → (md ∈ s.tables ↔ md ∈ s1.tables) := by
    intro md hmd
    have hsame : (userSpace root).foreign s1 = (userSpace root).foreign s :=
      htorn.kept.foreign.trans h.foreign.symm
    have hiff : md ∈ (userSpace root).foreign s1 ↔ md ∈ (userSpace root).foreign s := by
      rw [hsame]
    rw [mem_foreign, mem_foreign] at hiff
    exact ⟨fun hs => (hiff.mpr ⟨hs, hmd⟩).1, fun hs => (hiff.mp ⟨hs, hmd⟩).1⟩
  refine ⟨(s1.unregisterTable root).freeFrame root, ts ++ [root], hrun, hgone, htorn.released, ?_,
    (nodup_append.mp hnodup).1, fun g => ⟨fun hg => ?_, ?_⟩⟩
  · show s1.freed ++ [root] = _
    rw [hts, append_assoc]
  · obtain ⟨md, hmd, hframe⟩ := mem_map.mp (hall.mem_iff.mpr (mem_append_left _ hg))
    refine ⟨md, hmd, hframe, ?_⟩
    by_contra hother
    have hstay := findTable_of_mem htree.nodup ((hforeign md hother).mp hmd)
    have hne : md.framePhys ≠ root := by
      intro heq
      rw [heq] at hstay
      have hown := htree.rootOwn (c := userSpace root) hstay
      exact hother hown
    have hmem : md ∈ (s1.unregisterTable root).tables :=
      (findTable_some ((hfind md.framePhys).trans ((if_neg hne).trans hstay))).1
    exact (nodup_append.mp hnodup).2.2 g hg g (hframe ▸ mem_map_of_mem hmem) rfl
  · rintro ⟨md, hmd, hframe, hown⟩
    rcases mem_append.mp (hall.mem_iff.mp (mem_map.mpr ⟨md, hmd, hframe⟩)) with hg | hg
    · exact hg
    obtain ⟨md', hmd', hframe'⟩ := mem_map.mp hg
    have hother := hgone md' hmd'
    have hmem' : md' ∈ s1.tables := mem_of_mem_eraseP hmd'
    have hsame : md' = md := inj_on_of_nodup_map h.tree.nodup
      ((hforeign md' hother).mpr hmem') hmd (hframe'.trans hframe.symm)
    exact absurd (hsame ▸ hown) hother

end

end

end BigOS.Mm.Paging
