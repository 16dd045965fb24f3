/-
  BigOS.Mm.Buddy.BootSpec — which pages `handle_ards` frees.

  `handleArds_spec` gives the pages one call adds to the free lists in closed
  form (`ArdsPage`): the whole pages of the range above the lowest 2 MiB and
  outside the kernel image, or all of them when the range lies wholly inside
  the kernel image, the one case no branch of `handle_ards` catches.

  `BootInv` is `Inv` during `init_buddy`, with the arena's budget: at most one
  block of at most 2¹⁰ pages for each `PageBlock` taken from the arena, so the
  32-bit page counters cannot wrap.
-/
import BigOS.Mm.Buddy.Boot
import BigOS.Mm.Buddy.Invariant

namespace BigOS.Mm.Buddy

open BigOS.Lib.Carve BootState Zone Multiset List Option

variable {a a' : EarlyMetadataArena} {P : Multiset Nat} {zone : ZoneId} {s s' : BootState} {m : Nat}
  {q n : Nat} {page : Nat → Prop}

/-! ## §1. The invariant of the boot phase. -/

/-- The allocator during `init_buddy`, with the pages `P` freed so far. -/
structure BootInv (P : Multiset Nat) (s : BootState) : Prop where
  inv : Inv P s.state
  fresh : s.state.pageBlockList = []
  budget : P.card ≤ 2 ^ BUDDY_MAX_ORDER * s.arena.pageBlocksUsed
  capacity : s.arena.pageBlocksUsed ≤ EARLY_METADATA_PAGE_BLOCK_CAPACITY

theorem bootInv_init : BootInv 0 init := by
  refine ⟨⟨?_, ?_, ?_, ?_, ?_, ?_, by simp⟩, rfl, by simp, by decide⟩
  · intro i
    exact ⟨fun _ b hb => absurd hb (by simp [init, State.init, empty]),
      fun _ => by simp [init, State.init, empty]⟩
  · intro b hb
    exact absurd hb (by simp [init, State.init])
  · show State.init.freePages + pagesOf [] = 0
    rfl
  · intro i
    show empty.nrFreePages = empty.pages.card
    rfl
  · show State.init.nrFreePages = State.init.freePages.card
    rfl
  · intro _ i k _ a ha
    exact absurd ha (by simp [init, State.init, empty])

/-- What the arena hands out is counted. -/
theorem arena_alloc_pageBlocksUsed {size align : Nat} (h : a.alloc size align = some a') :
    a'.pageBlocksUsed = a.pageBlocksUsed := by
  unfold EarlyMetadataArena.alloc at h
  split at h
  · cases h
  · simp only at h
    split at h
    · cases h
    · rw [← Option.some.inj h]

theorem allocPageBlock_spec (h : a.allocPageBlock = some a') :
    a'.pageBlocksUsed = a.pageBlocksUsed + 1
      ∧ a.pageBlocksUsed < EARLY_METADATA_PAGE_BLOCK_CAPACITY := by
  unfold EarlyMetadataArena.allocPageBlock at h
  split at h
  · cases h
  next hcap =>
    obtain ⟨a1, ha1, rfl⟩ := map_eq_some_iff.mp h
    exact ⟨by simp [arena_alloc_pageBlocksUsed ha1], by omega⟩

theorem allocPageBlockNode_spec (h : a.allocPageBlockNode = some a') :
    a'.pageBlocksUsed = a.pageBlocksUsed := by
  unfold EarlyMetadataArena.allocPageBlockNode at h
  split at h
  · cases h
  · obtain ⟨a1, ha1, rfl⟩ := map_eq_some_iff.mp h
    show a1.pageBlocksUsed = a.pageBlocksUsed
    exact arena_alloc_pageBlocksUsed ha1

/-! ## §2. Inserting blocks. -/

theorem Zone.newFree_freeArea (z : Zone) (b : PageBlock) :
    (z.newFree b).freeArea = (z.baseFree b).freeArea :=
  (z.baseFree b).withCounters_freeArea _ _

/-- A new block adds its pages, as long as the counters have room. -/
theorem newFree_inv {s : State} (h : Inv P s) {b : PageBlock} (hb : b.Wf)
    (hroom : (P + b.pages).card < 2 ^ 32) : Inv (P + b.pages) (s.newFree b) := by
  have hz := h.zones b.zone
  have hp : ((s.zone b.zone).newFree b).pages = (s.zone b.zone).pages + b.pages := by
    rw [pages_congr (newFree_freeArea _ b), baseFree_pages hz hb rfl]
  have hzle := h.zone_card_le b.zone
  have hfle := h.freePages_card_le
  rw [card_add, b.card_pages] at hroom
  refine h.replace b.zone (z := (s.zone b.zone).newFree b) rfl
    ((baseFree_wf hz hb rfl).congr (newFree_freeArea _ b)) h.allocated ?_ ?_ ?_
    (nodup_of_le (le_add_right _ _)) (fun hnd => ?_) ?_
  · show P + (_ + pagesOf s.pageBlockList) = _
    rw [hp]
    abel
  · show u32 (((s.zone b.zone).baseFree b).nrFreePages + 2 ^ b.order) = _
    rw [(baseFree_counters hz hb rfl).2, h.zoneCount, hp,
      card_add, b.card_pages, u32_of_lt (by omega)]
  · show u32 (s.nrFreePages + 2 ^ b.order) + _ = _
    rw [h.count, hp, card_add, b.card_pages, u32_of_lt (by omega)]
    omega
  · have hco := h.coalesced (nodup_of_le (le_add_right _ _) hnd) b.zone
    refine (baseFree_coalesced hz hb rfl ?_ hco).congr (newFree_freeArea _ b)
    exact nodup_of_le (add_le_add (h.zone_pages_le b.zone) (le_refl _)) hnd
  · rw [card_add, b.card_pages]
    exact hroom

theorem insertChunk_spec {c : Chunk} (h : BootInv P s) (hb : (chunkBlock zone 0 c).Wf)
    (hres : insertChunk zone s c = some s') : BootInv (P + (chunkBlock zone 0 c).pages) s' := by
  unfold insertChunk at hres
  obtain ⟨a1, ha1, hres⟩ := bind_eq_some_iff.mp hres
  obtain ⟨a2, ha2, hres⟩ := bind_eq_some_iff.mp hres
  obtain ⟨hused, hlt⟩ := allocPageBlock_spec ha1
  have hused2 := allocPageBlockNode_spec ha2
  cases hres
  have hcap : EARLY_METADATA_PAGE_BLOCK_CAPACITY = 16384 := rfl
  have hsize : (chunkBlock zone 0 c).pages.card ≤ 2 ^ BUDDY_MAX_ORDER := by
    rw [PageBlock.card_pages]
    exact Nat.pow_le_pow_right (by omega) hb.order_le
  have hbudget : (P + (chunkBlock zone 0 c).pages).card
      ≤ 2 ^ BUDDY_MAX_ORDER * (s.arena.pageBlocksUsed + 1) := by
    rw [card_add, Nat.mul_add, Nat.mul_one]
    exact Nat.add_le_add h.budget hsize
  have hsmall : 2 ^ BUDDY_MAX_ORDER * (s.arena.pageBlocksUsed + 1) < 2 ^ 32 := by
    have hmax : BUDDY_MAX_ORDER = 10 := rfl
    rw [hmax]
    omega
  refine ⟨newFree_inv h.inv hb (Nat.lt_of_le_of_lt hbudget hsmall), h.fresh, ?_, ?_⟩
  · show _ ≤ 2 ^ BUDDY_MAX_ORDER * a2.pageBlocksUsed
    rw [hused2, hused]
    exact hbudget
  · show a2.pageBlocksUsed ≤ _
    omega

theorem foldlM_insertChunk_spec :
    ∀ (cs : List Chunk) (P : Multiset Nat) (s s' : BootState), BootInv P s →
      (∀ b ∈ cs.map (chunkBlock zone 0), b.Wf) → cs.foldlM (insertChunk zone) s = some s' →
      BootInv (P + pagesOf (cs.map (chunkBlock zone 0))) s' := by
  intro cs
  induction cs with
  | nil =>
    intro P s s' h _ hres
    cases hres
    simpa using h
  | cons c cs ih =>
    intro P s s' h hwf hres
    obtain ⟨s1, hs1, hres⟩ := bind_eq_some_iff.mp hres
    have h1 := insertChunk_spec h (hwf _ (by simp)) hs1
    have h2 := ih _ s1 s' h1 (fun b hb => hwf b (by
      exact mem_cons_of_mem _ hb)) hres
    rw [List.map_cons, pagesOf_cons, ← add_assoc]
    exact h2

/-! ## §3. The pages of one call of `handle_ards`. -/

/-- Page `p` of the aligned range `[b, b + n)` survives the cuts. -/
def RangePage (kernelSize b n p : Nat) : Prop :=
  b + n < 2 ^ 64 ∧ b ≤ PAGE_SIZE * p ∧ PAGE_SIZE * (p + 1) ≤ b + n ∧ LOWEST_LIMIT ≤ PAGE_SIZE * p
    ∧ (PAGE_SIZE * p < KERNEL_BASE ∨ kernelEndAddr kernelSize ≤ PAGE_SIZE * p
      ∨ (KERNEL_BASE ≤ b ∧ b + n ≤ kernelEndAddr kernelSize))

/-- Page `p` is freed by `handle_ards(base, len)`. -/
def ArdsPage (kernelSize base len p : Nat) : Prop :=
  ∃ b n, alignArds base len = some (b, n) ∧ RangePage kernelSize b n p

/-- An aligned range in pages. -/
theorem alignArds_aligned {base len b : Nat} (hb : base < 2 ^ 64) (hl : len < 2 ^ 64)
    (h : alignArds base len = some (b, n)) :
    b < 2 ^ 64 ∧ n < 2 ^ 64 ∧ (∃ q, b = PAGE_SIZE * q) ∧ ∃ m, n = PAGE_SIZE * m := by
  have hle := alignArds_le h
  have hps : PAGE_SIZE = 4096 := rfl
  unfold alignArds at h
  split at h
  · simp only at h
    split at h
    · cases h
    obtain ⟨rfl, rfl⟩ := Prod.mk.inj (Option.some.inj h)
    refine ⟨Nat.mod_lt _ (by decide), by omega, ?_, ⟨_, Nat.mul_comm _ _⟩⟩
    -- the aligned base wraps to page 0 above the last page of the address space
    refine ⟨u64 (base / PAGE_SIZE * PAGE_SIZE + PAGE_SIZE) / PAGE_SIZE, ?_⟩
    unfold u64
    rw [hps]
    omega
  next hal =>
    cases h
    refine ⟨hb, by omega, ⟨base / PAGE_SIZE, ?_⟩, ⟨_, Nat.mul_comm _ _⟩⟩
    rw [hps] at hal ⊢
    omega

theorem alignArds_self (q m : Nat) :
    alignArds (PAGE_SIZE * q) (PAGE_SIZE * m) = some (PAGE_SIZE * q, PAGE_SIZE * m) := by
  have hps : PAGE_SIZE = 4096 := rfl
  unfold alignArds
  rw [if_neg (by rw [hps]; omega), Nat.mul_div_cancel_left _ (by decide), Nat.mul_comm m]

/-- The pages a call added: a multiset without repetition, described by a
predicate. -/
def Adds (P : Multiset Nat) (s : BootState) (page : Nat → Prop) : Prop :=
  ∃ Q : Multiset Nat, BootInv (P + Q) s ∧ Q.Nodup ∧ ∀ p, p ∈ Q ↔ page p

theorem Adds.none (h : BootInv P s) (hno : ∀ p, ¬ page p) : Adds P s page :=
  ⟨0, by simpa using h, nodup_zero, fun p => by simp [hno p]⟩

theorem Adds.congr {page' : Nat → Prop} (h : Adds P s page) (heq : ∀ p, page' p ↔ page p) :
    Adds P s page' := by
  obtain ⟨Q, hQ, hnd, hmem⟩ := h
  exact ⟨Q, hQ, hnd, fun p => by rw [hmem, heq]⟩

/-- Carving a range of whole pages of one zone frees exactly its pages. -/
theorem Adds.range (h : BootInv P s) (hlo : zone.lo ≤ PAGE_SIZE * q)
    (hhi : PAGE_SIZE * (q + n) ≤ zone.hi)
    (hres : insertRange zone s (PAGE_SIZE * q) (PAGE_SIZE * n) = some s') :
    Adds P s' (fun p => q ≤ p ∧ p < q + n) := by
  have hwf := chunkBlock_wf hlo hhi 0
  have hspec := foldlM_insertChunk_spec _ P s s' h (fun b hb => (hwf b hb).1) hres
  rw [pagesOf_chunkBlocks] at hspec
  exact ⟨_, hspec, coe_nodup.mpr nodup_range', fun p => by rw [mem_coe, mem_range'_1]⟩

/-- Two calls that add disjoint pages. -/
theorem Adds.seq {page' : Nat → Prop} (h : Adds P s page)
    (hnext : ∀ P, BootInv P s → Adds P s' page') (hdisj : ∀ p, page p → ¬ page' p) :
    Adds P s' (fun p => page p ∨ page' p) := by
  obtain ⟨Q, hQ, hnd, hmem⟩ := h
  obtain ⟨Q', hQ', hnd', hmem'⟩ := hnext _ hQ
  refine ⟨Q + Q', by rw [← add_assoc]; exact hQ', ?_, fun p => ?_⟩
  · refine nodup_add.mpr ⟨hnd, hnd', disjoint_left.mpr ?_⟩
    intro p hp hp'
    exact hdisj p ((hmem p).mp hp) ((hmem' p).mp hp')
  · rw [mem_add, hmem, hmem']

/-! ## §4. `handle_ards`. -/

/-- On an aligned range the pages come from the range itself. -/
theorem ardsPage_self (kernelSize q m p : Nat) :
    ArdsPage kernelSize (PAGE_SIZE * q) (PAGE_SIZE * m) p
      ↔ RangePage kernelSize (PAGE_SIZE * q) (PAGE_SIZE * m) p := by
  unfold ArdsPage
  rw [alignArds_self]
  constructor
  · rintro ⟨b, n, heq, h⟩
    cases heq
    exact h
  · intro h
    exact ⟨_, _, rfl, h⟩

/-- The kernel image ends on a page boundary. -/
theorem kernelEndAddr_page (kernelSize : Nat) :
    ∃ ke, kernelEndAddr kernelSize = PAGE_SIZE * ke ∧ 4096 ≤ ke := by
  refine ⟨(kernelSize + PAGE_SIZE - 1) / PAGE_SIZE + 4096, ?_, Nat.le_add_left _ _⟩
  unfold kernelEndAddr
  rw [Nat.mul_add, Nat.mul_comm PAGE_SIZE]
  rfl

/-- A range of whole pages of the DMA zone needs no cut, and one inside the kernel image,
below the DMA32 limit, gets none: the branch for a start inside the image asks for an end
beyond it. -/
theorem handleArds_uncut (kernelSize : Nat) (s : BootState) (hq : 512 ≤ q) (hm : 0 < m)
    (hin : q + m ≤ 4096 ∨ 4096 ≤ q ∧ PAGE_SIZE * (q + m) ≤ kernelEndAddr kernelSize ∧
      q + m ≤ 1048576) : handleArds kernelSize s (PAGE_SIZE * q) (PAGE_SIZE * m)
      = insertRange (if q < 4096 then .dma else .dma32) s (PAGE_SIZE * q) (PAGE_SIZE * m) := by
  have hps : PAGE_SIZE = 4096 := rfl
  have hsum : PAGE_SIZE * q + PAGE_SIZE * m < 2 ^ 64 := by rw [hps]; omega
  have halign := alignArds_self q m
  rw [handleArds]
  split
  next hnone => cases halign.symm.trans hnone
  rename_i b n hsome
  cases halign.symm.trans hsome
  simp only [u64_of_lt hsum]
  rw [hps] at hin ⊢
  rw [show LOWEST_LIMIT = 0x200000 from rfl, show KERNEL_BASE = 0x1000000 from rfl,
    show DMA_LIMIT = 0x1000000 from rfl, show DMA32_LIMIT = 0x100000000 from rfl,
    if_neg (by omega), if_neg (by omega), if_neg (by omega), if_neg (by omega)]
  split
  · rw [if_neg (by omega), if_pos (by omega)]
  · rw [if_pos (by omega), if_neg (by omega), if_neg (by omega)]

/-- `handle_ards` frees exactly the pages of `ArdsPage`, each once.  The
induction is on the length: every branch that cuts calls on shorter ranges. -/
theorem handleArds_spec (kernelSize : Nat) :
    ∀ (len base : Nat) (P : Multiset Nat) (s s' : BootState), base < 2 ^ 64 → len < 2 ^ 64 →
      BootInv P s → handleArds kernelSize s base len = some s' →
      Adds P s' (ArdsPage kernelSize base len) := by
  intro len
  induction len using Nat.strong_induction_on with
  | _ len ih =>
    intro base P s s' hbase hlen h hres
    have hps : PAGE_SIZE = 4096 := rfl
    have hlow : LOWEST_LIMIT = PAGE_SIZE * 512 := rfl
    have hkb : KERNEL_BASE = PAGE_SIZE * 4096 := rfl
    have hdma : DMA_LIMIT = PAGE_SIZE * 4096 := rfl
    have hdma32 : DMA32_LIMIT = PAGE_SIZE * 1048576 := rfl
    obtain ⟨ke, hke, hkeb⟩ := kernelEndAddr_page kernelSize
    rw [handleArds] at hres
    split at hres
    next halign =>
      cases hres
      refine Adds.none h ?_
      rintro p ⟨b, n, heq, -⟩
      rw [halign] at heq
      cases heq
    rename_i b n halign
    have hle := alignArds_le halign
    obtain ⟨hb, hn, ⟨q, rfl⟩, m, rfl⟩ := alignArds_aligned hbase hlen halign
    -- from here on the range is its aligned part
    have hpage : ∀ p, ArdsPage kernelSize base len p
        ↔ RangePage kernelSize (PAGE_SIZE * q) (PAGE_SIZE * m) p := by
      intro p
      rw [← ardsPage_self]
      unfold ArdsPage
      rw [halign, alignArds_self]
    have ihp : ∀ (q' m' : Nat) {P : Multiset Nat} {s s' : BootState} {b n : Nat},
        b = PAGE_SIZE * q' → n = PAGE_SIZE * m' → b < 2 ^ 64 → n < len → BootInv P s →
        handleArds kernelSize s b n = some s' →
        Adds P s' (RangePage kernelSize (PAGE_SIZE * q') (PAGE_SIZE * m')) := by
      rintro q' m' P s s' b n rfl rfl hb' hn' hinv hrun
      exact (ih _ hn' _ P s s' hb' (by omega) hinv hrun).congr
        (fun p => (ardsPage_self kernelSize q' m' p).symm)
    refine Adds.congr ?_ hpage
    unfold RangePage at ihp ⊢
    simp only [hke, hlow, hkb, hdma, hdma32] at hres
    by_cases hwrap : PAGE_SIZE * q + PAGE_SIZE * m < 2 ^ 64
    · rw [u64_of_lt hwrap] at hres
      rw [hps] at *
      split at hres
      next hempty =>
        cases hres
        exact Adds.none h (fun p => by omega)
      split at hres
      next hq =>
        -- below the low limit
        split at hres
        next hcut =>
          exact (ihp 512 (q + m - 512) rfl (by omega) (by omega) (by omega) h hres).congr
            (fun p => by omega)
        next hcut =>
          cases hres
          exact Adds.none h (fun p => by omega)
      split at hres
      next hk =>
        -- starts below the kernel and reaches into it
        obtain ⟨s1, hs1, hres⟩ := bind_eq_some_iff.mp hres
        have hfirst := ihp q (4096 - q) rfl (by omega) (by omega) (by omega) h hs1
        split at hres
        next hcut =>
          have hboth := hfirst.seq
            (fun P hP => ihp ke (q + m - ke) rfl (by omega) (by omega) (by omega) hP hres)
            (fun p => by omega)
          exact hboth.congr (fun p => by omega)
        next hcut =>
          cases hres
          exact hfirst.congr (fun p => by omega)
      split at hres
      next hin =>
        -- starts inside the kernel and reaches past its end
        exact (ihp ke (q + m - ke) rfl (by omega) (by omega) (by omega) h hres).congr
          (fun p => by omega)
      -- no cut left but the zone limits
      split at hres
      next hz =>
        rw [if_neg (by omega)] at hres
        exact (Adds.range h (Nat.zero_le _) (show 4096 * (q + m) ≤ 0x1000000 by omega)
          hres).congr (fun p => by omega)
      split at hres
      next hz32 =>
        have hlo : ZoneId.dma32.lo ≤ PAGE_SIZE * q :=
          show 0x1000000 ≤ 4096 * q by omega
        split at hres
        next hcut =>
          obtain ⟨s1, hs1, hres⟩ := bind_eq_some_iff.mp hres
          have hupper := ihp 1048576 (q + m - 1048576) rfl (by omega) (by omega) (by omega) h hs1
          rw [show 4096 * 1048576 - 4096 * q = 4096 * (1048576 - q) by omega] at hres
          have hboth := hupper.seq
            (fun P hP => Adds.range hP hlo
              (show 4096 * (q + (1048576 - q)) ≤ 0x100000000 by omega) hres)
            (fun p => by omega)
          exact hboth.congr (fun p => by omega)
        next hcut =>
          exact (Adds.range h hlo (show 4096 * (q + m) ≤ 0x100000000 by omega)
            hres).congr (fun p => by omega)
      next hz32 =>
        exact (Adds.range h (show 0x100000000 ≤ 4096 * q by omega)
          (show 4096 * (q + m) ≤ 2 ^ 64 by omega) hres).congr (fun p => by omega)
    · -- the end wraps around: nothing is freed
      rw [if_pos (by unfold u64; omega)] at hres
      cases hres
      exact Adds.none h (fun p => by omega)

/-- The calls of `handle_ards` one after the other, on ranges whose freed pages
are disjoint. -/
theorem consumeRanges_spec (kernelSize : Nat) :
    ∀ (ranges : List (Nat × Nat)) (P : Multiset Nat) (s s' : BootState),
      (∀ r ∈ ranges, r.1 < 2 ^ 64 ∧ r.2 < 2 ^ 64) → (ranges.Pairwise fun r r' =>
        ∀ p, ArdsPage kernelSize r.1 r.2 p → ¬ ArdsPage kernelSize r'.1 r'.2 p) →
      BootInv P s → consumeRanges kernelSize ranges s = some s' →
      Adds P s' (fun p => ∃ r ∈ ranges, ArdsPage kernelSize r.1 r.2 p) := by
  intro ranges
  induction ranges with
  | nil =>
    intro P s s' _ _ h hres
    cases hres
    exact Adds.none h (fun p => by simp)
  | cons r ranges ih =>
    intro P s s' hword hdisj h hres
    unfold consumeRanges at hres
    obtain ⟨s1, hs1, hres⟩ := bind_eq_some_iff.mp hres
    obtain ⟨hr, hrest⟩ := pairwise_cons.mp hdisj
    obtain ⟨hb, hl⟩ := hword r mem_cons_self
    have hfirst := handleArds_spec kernelSize r.2 r.1 P s s1 hb hl h hs1
    have hboth := hfirst.seq
      (fun P hP => ih P s1 s' (fun x hx => hword x (mem_cons_of_mem _ hx)) hrest hP hres)
      (by
        rintro p hp ⟨r', hr', hp'⟩
        exact hr r' hr' p hp hp')
    refine hboth.congr (fun p => ?_)
    simp

end BigOS.Mm.Buddy
