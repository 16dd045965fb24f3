/-
  BigOS.Mm.Buddy.Invariant — what holds along every run of the page allocator.

  `Inv P s`: the zones are well formed, the pages in the free lists and in
  `gPageBlockList` are together the multiset `P`, the page counters count the
  free lists, and the zones are coalesced when no page is in `P` twice.  `P` is
  the multiset of pages at the start of the run: one step moves pages between
  the two sides and never changes their sum.

    * `step_inv` — one call of the interface keeps `Inv P`;
    * `run_inv` — so does every sequence of calls.
-/
import BigOS.Mm.Buddy.Coalesced

namespace BigOS.Mm.Buddy

open Multiset List

variable {P : Multiset Nat} {s : State} {z : Zone} {b : PageBlock}

/-! ## §1. The pages of the whole state. -/

/-- The pages in the free lists of all zones. -/
def State.freePages (s : State) : Multiset Nat :=
  (s.zone .dma).pages + (s.zone .dma32).pages + (s.zone .normal).pages

@[simp] theorem State.setZone_self (s : State) (i : ZoneId) (z : Zone) :
    (s.setZone i z).zone i = z := by
  simp [State.setZone]

theorem State.setZone_other (s : State) {i j : ZoneId} (h : j ≠ i) (z : Zone) :
    (s.setZone i z).zone j = s.zone j := by
  simp [State.setZone, Function.update_of_ne h]

/-- Replacing one zone exchanges its pages. -/
theorem State.setZone_freePages (s : State) (i : ZoneId) (z : Zone) :
    (s.setZone i z).freePages + (s.zone i).pages = s.freePages + z.pages := by
  unfold State.freePages
  cases i <;> rw [s.setZone_self, s.setZone_other (by decide), s.setZone_other (by decide)]
  · abel
  · abel
  · abel

theorem State.zone_pages_le (s : State) (i : ZoneId) : (s.zone i).pages ≤ s.freePages := by
  unfold State.freePages
  cases i
  · rw [add_assoc]
    exact le_add_right _ _
  · rw [add_assoc, add_left_comm]
    exact le_add_right _ _
  · exact le_add_left _ _

/-! ## §2. The invariant. -/

/-- The invariant of a run that started with the pages `P`. -/
structure Inv (P : Multiset Nat) (s : State) : Prop where
  zones : ∀ i, (s.zone i).Wf i
  allocated : ∀ b ∈ s.pageBlockList, b.Wf
  pages : s.freePages + pagesOf s.pageBlockList = P
  zoneCount : ∀ i, (s.zone i).nrFreePages = (s.zone i).pages.card
  count : s.nrFreePages = s.freePages.card
  coalesced : P.Nodup → ∀ i, (s.zone i).Coalesced
  /-- The counters are 32 bits wide. -/
  small : P.card < 2 ^ 32

theorem Inv.freePages_card_le (h : Inv P s) : s.freePages.card ≤ P.card := by
  rw [← h.pages, card_add]
  exact Nat.le_add_right _ _

theorem Inv.zone_card_le (h : Inv P s) (i : ZoneId) : (s.zone i).pages.card ≤ P.card :=
  Nat.le_trans (card_le_card (s.zone_pages_le i)) h.freePages_card_le

/-- How every operation re-establishes the invariant: one zone and the
allocated list are replaced, which turns the pages `P` into `Q`. -/
theorem Inv.replace {Q : Multiset Nat} {t : State} (h : Inv P s) (i : ZoneId)
    (hzone : t.zone = (s.setZone i z).zone) (hz : z.Wf i) (halloc : ∀ b ∈ t.pageBlockList, b.Wf)
    (hpages : P + (z.pages + pagesOf t.pageBlockList) =
      Q + ((s.zone i).pages + pagesOf s.pageBlockList)) (hzc : z.nrFreePages = z.pages.card)
    (hc : t.nrFreePages + (s.zone i).pages.card = s.nrFreePages + z.pages.card)
    (hnd : Q.Nodup → P.Nodup) (hco : Q.Nodup → z.Coalesced) (hQ : Q.card < 2 ^ 32) : Inv Q t := by
  have hfree : t.freePages = (s.setZone i z).freePages := by
    unfold State.freePages
    rw [hzone]
  have hswap := s.setZone_freePages i z
  refine ⟨fun j => ?_, halloc, ?_, fun j => ?_, ?_, fun hQnd j => ?_, hQ⟩
  · rw [hzone]
    by_cases hj : j = i
    · subst hj
      rw [s.setZone_self]
      exact hz
    · rw [s.setZone_other hj]
      exact h.zones j
  · -- compare both sides with the old zone and the old allocated list added
    apply add_right_cancel (b := (s.zone i).pages + pagesOf s.pageBlockList)
    calc t.freePages + pagesOf t.pageBlockList + ((s.zone i).pages + pagesOf s.pageBlockList)
        = (s.setZone i z).freePages + (s.zone i).pages
            + (pagesOf s.pageBlockList + pagesOf t.pageBlockList) := by rw [hfree]; abel
      _ = s.freePages + pagesOf s.pageBlockList + (z.pages + pagesOf t.pageBlockList) := by
          rw [hswap]; abel
      _ = P + (z.pages + pagesOf t.pageBlockList) := by rw [h.pages]
      _ = Q + ((s.zone i).pages + pagesOf s.pageBlockList) := hpages
  · rw [hzone]
    by_cases hj : j = i
    · subst hj
      rw [s.setZone_self]
      exact hzc
    · rw [s.setZone_other hj]
      exact h.zoneCount j
  · have hcard := congrArg card hswap
    rw [card_add, card_add] at hcard
    have := h.count
    rw [hfree]
    omega
  · rw [hzone]
    by_cases hj : j = i
    · subst hj
      rw [s.setZone_self]
      exact hco hQnd
    · rw [s.setZone_other hj]
      exact h.coalesced (hnd hQnd) j

theorem Inv.zone_pages_le (h : Inv P s) (i : ZoneId) : (s.zone i).pages ≤ P := by
  rw [← h.pages]
  exact le_trans (s.zone_pages_le i) (le_add_right _ _)

/-! ## §3. Allocation. -/

theorem zoneAlloc_inv (h : Inv P s) (i : ZoneId) (order : Nat) (news : Nat → Bool) :
    Inv P (zoneAlloc s i order news).1 := by
  obtain ⟨hwf, hnone, hsome⟩ := alloc_spec (h.zones i) order news
  have hco : P.Nodup → ((s.zone i).alloc i order news).1.Coalesced := fun hnd =>
    alloc_coalesced (h.zones i) (nodup_of_le (h.zone_pages_le i) hnd) (h.coalesced hnd i) order news
  unfold zoneAlloc
  rcases hres : (s.zone i).alloc i order news with ⟨z, _ | b⟩
  · -- nothing allocated: the pages and the counter of the zone are unchanged
    rw [hres] at hwf hnone hco
    obtain ⟨hp, hn⟩ := hnone rfl
    refine h.replace i (z := z) rfl hwf h.allocated ?_ ?_ ?_ id hco h.small
    · show P + (z.pages + pagesOf s.pageBlockList) = _
      rw [hp]
    · rw [hn, hp, h.zoneCount]
    · show s.nrFreePages + _ = _
      rw [hp]
  · -- the pages of `b` move from the zone to the allocated list
    rw [hres] at hwf hsome hco
    obtain ⟨hb, -, -, hp, hn⟩ := hsome b rfl
    have hcard : z.pages.card + 2 ^ b.order = (s.zone i).pages.card := by
      rw [← hp, card_add, b.card_pages]
    have hzlt := Nat.lt_of_le_of_lt (h.zone_card_le i) h.small
    have hflt := Nat.lt_of_le_of_lt h.freePages_card_le h.small
    have hzle := card_le_card (s.zone_pages_le i)
    refine h.replace i (z := z) rfl hwf ?_ ?_ ?_ ?_ id hco h.small
    · intro c hc
      rcases mem_append.mp hc with hc | hc
      · exact h.allocated c hc
      · rw [List.mem_singleton.mp hc]
        exact hb
    · show P + (z.pages + pagesOf (s.pageBlockList ++ [b])) = _
      rw [← hp, pagesOf_append, pagesOf_cons, pagesOf_nil]
      abel
    · rw [hn, h.zoneCount, u32Sub_of_le hzlt (by omega)]
      omega
    · show u32Sub s.nrFreePages (2 ^ b.order) + _ = _
      rw [h.count, u32Sub_of_le hflt (by omega)]
      omega

theorem allocFrom_inv (news : ZoneId → Nat → Bool) (order : Nat) :
    ∀ (zones : List ZoneId) (s : State), Inv P s → Inv P (allocFrom news order zones s).1 := by
  intro zones
  induction zones with
  | nil => intro s h; exact h
  | cons i rest ih =>
    intro s h
    have hstep := zoneAlloc_inv h i order (news i)
    unfold allocFrom
    rcases hres : zoneAlloc s i order (news i) with ⟨s', _ | b⟩ <;> rw [hres] at hstep
    · exact ih s' hstep
    · exact hstep

theorem allocPhysicalOrder_inv (h : Inv P s) (order gfm : Nat) (news : ZoneId → Nat → Bool) :
    Inv P (allocPhysicalOrder s order gfm news).1 := by
  unfold allocPhysicalOrder
  split
  · exact h
  · exact allocFrom_inv news order _ s h

/-! ## §4. Freeing. -/

theorem Zone.free_freeArea (z : Zone) (b : PageBlock) :
    (z.free b).freeArea = (z.baseFree b).freeArea :=
  (z.baseFree b).withCounters_freeArea _ _

/-- `Zone::free` of a block of the zone. -/
theorem free_spec (hz : z.Wf b.zone) (hb : b.Wf) :
    (z.free b).Wf b.zone ∧ (z.free b).pages = z.pages + b.pages
      ∧ (z.free b).nrFreePages = u32 (z.nrFreePages + 2 ^ b.order) := by
  refine ⟨(baseFree_wf hz hb rfl).congr (z.free_freeArea b), ?_, ?_⟩
  · rw [Zone.pages_congr (z.free_freeArea b), baseFree_pages hz hb rfl]
  · show u32 ((z.baseFree b).nrFreePages + 2 ^ b.order) = _
    rw [(baseFree_counters hz hb rfl).2]

/-- Erasing the block the search found takes its pages out of the list. -/
theorem pagesOf_eraseP {q : PageBlock → Bool} {ls : List PageBlock} (h : ls.find? q = some b) :
    b.pages + pagesOf (ls.eraseP q) = pagesOf ls := by
  induction ls with
  | nil => cases h
  | cons c ls ih =>
    by_cases hc : q c
    · rw [find?_cons_of_pos hc] at h
      rw [eraseP_cons_of_pos hc, Option.some.inj h, pagesOf_cons]
    · rw [find?_cons_of_neg hc] at h
      rw [eraseP_cons_of_neg hc, pagesOf_cons, pagesOf_cons, ← ih h]
      abel

theorem freePhysicalOrder_inv (h : Inv P s) (p : Nat) : Inv P (freePhysicalOrder s p) := by
  unfold freePhysicalOrder
  split
  · exact h
  cases hfind : s.pageBlockList.find? (fun b => b.base == p) with
  | none => exact h
  | some b =>
    have hb := h.allocated b (mem_of_find?_eq_some hfind)
    obtain ⟨hwf, hp, hn⟩ := free_spec (h.zones b.zone) hb
    have herase := pagesOf_eraseP hfind
    -- the block was allocated, so its pages are part of `P`
    have hroom : s.freePages.card + 2 ^ b.order ≤ P.card := by
      rw [← h.pages, ← herase, card_add, card_add, b.card_pages]
      omega
    have hzle := card_le_card (s.zone_pages_le b.zone)
    have hsmall := h.small
    have hco : P.Nodup → ((s.zone b.zone).free b).Coalesced := by
      intro hnd
      refine (baseFree_coalesced (h.zones b.zone) hb rfl ?_ (h.coalesced hnd b.zone)).congr
        (Zone.free_freeArea _ b)
      refine nodup_of_le ?_ hnd
      rw [← h.pages, ← herase]
      exact add_le_add (s.zone_pages_le b.zone) (le_add_right _ _)
    refine h.replace b.zone (z := (s.zone b.zone).free b) rfl hwf ?_ ?_ ?_ ?_ id hco h.small
    · intro c hc
      exact h.allocated c (mem_of_mem_eraseP hc)
    · show P + (_ + pagesOf (s.pageBlockList.eraseP _)) = _
      rw [hp, ← herase]
      abel
    · rw [hn, hp, h.zoneCount, u32_of_lt (by omega), card_add, b.card_pages]
    · show u32 (s.nrFreePages + 2 ^ b.order) + _ = _
      rw [h.count, u32_of_lt (by omega), hp, card_add, b.card_pages]
      omega

/-! ## §5. Runs. -/

/-- One call keeps the invariant. -/
theorem step_inv (h : Inv P s) (op : Op) : Inv P (step s op) := by
  cases op with
  | alloc order gfm news => exact allocPhysicalOrder_inv h order gfm news
  | free p => exact freePhysicalOrder_inv h p

/-- Every sequence of calls keeps the invariant. -/
theorem run_inv (h : Inv P s) (ops : List Op) : Inv P (run s ops) :=
  foldlRecOn ops step h (fun _ hs op _ => step_inv hs op)

end BigOS.Mm.Buddy
