/-
  BigOS.Mm.Buddy.Safety — no page is handed out twice, lost or counted twice.

  `buddy_safety`: from the free lists `handle_ards` builds out of pairwise
  disjoint ranges, every sequence of `alloc_physical_order` and
  `free_physical_order` calls, with metadata allocations failing at will, keeps
  the blocks disjoint, of their order's length, inside their zone and sorted,
  keeps their union, and keeps the page counters exact.

  `handle_ards` does not check its ranges against each other:
  `overlapping_ranges_share_a_page` shows what two calls on one page build.
-/
import BigOS.Mm.Buddy.BootSpec

namespace BigOS.Mm.Buddy

open BootState Zone Multiset List

variable {s : State} {P : Multiset Nat} {kernelSize p : Nat} {ranges : List (Nat × Nat)}
  {ls : List PageBlock}

/-! ## §1. Blocks as address ranges. -/

/-- The free blocks of a zone. -/
def Zone.blocks (z : Zone) : List PageBlock :=
  (List.range (BUDDY_MAX_ORDER + 1)).flatMap z.freeArea

/-- The free blocks of all zones. -/
def State.freeBlocks (s : State) : List PageBlock :=
  [ZoneId.dma, ZoneId.dma32, ZoneId.normal].flatMap (fun i => (s.zone i).blocks)

/-- The number of pages of a list of blocks. -/
def pageCount (ls : List PageBlock) : Nat := (ls.map (fun b => 2 ^ b.order)).sum

theorem card_pagesOf (ls : List PageBlock) : (pagesOf ls).card = pageCount ls := by
  induction ls with
  | nil => rfl
  | cons b ls ih =>
    rw [pagesOf_cons, card_add, b.card_pages, ih]
    simp [pageCount]

theorem pagesOf_flatMap (f : Nat → List PageBlock) (ks : List Nat) :
    pagesOf (ks.flatMap f) = (ks.map (fun k => pagesOf (f k))).sum := by
  induction ks with
  | nil => rfl
  | cons k ks ih => rw [List.flatMap_cons, pagesOf_append, ih, List.map_cons, List.sum_cons]

theorem Zone.pagesOf_blocks (z : Zone) : pagesOf z.blocks = z.pages := by
  unfold blocks pages
  rw [pagesOf_flatMap]
  rfl

theorem State.pagesOf_freeBlocks (s : State) : pagesOf s.freeBlocks = s.freePages := by
  unfold State.freeBlocks State.freePages
  simp only [List.flatMap_cons, flatMap_nil, pagesOf_append, pagesOf_nil, pagesOf_blocks]
  abel

theorem mem_pagesOf : p ∈ pagesOf ls ↔ ∃ b ∈ ls, p ∈ b.pages := by
  induction ls with
  | nil => simp
  | cons b ls ih => simp [ih]

theorem pairwise_blocksDisjoint (hwf : ∀ b ∈ ls, b.Wf)
    (hnd : (pagesOf ls).Nodup) : ls.Pairwise BlocksDisjoint := by
  induction ls with
  | nil => exact List.Pairwise.nil
  | cons b ls ih =>
    rw [pagesOf_cons, nodup_add] at hnd
    obtain ⟨-, hrest, hdisj⟩ := hnd
    refine pairwise_cons.mpr ⟨fun c hc => ?_, ih (fun c hc => hwf c (mem_cons_of_mem _ hc)) hrest⟩
    apply blocksDisjoint_of_pages (hwf b mem_cons_self) (hwf c (mem_cons_of_mem _ hc))
    refine disjoint_left.mpr (fun hpb hpc => ?_)
    exact disjoint_left.mp hdisj hpb (mem_pagesOf.mpr ⟨c, hc, hpc⟩)

/-! ## §2. Safety from the invariant. -/

/-- The safety property, relative to the state `init` a run started in. -/
structure Safe (init s : State) : Prop where
  /-- Free and allocated blocks are pairwise disjoint. -/
  disjoint : (s.freeBlocks ++ s.pageBlockList).Pairwise BlocksDisjoint
  /-- Every block has its order's length and lies inside its zone. -/
  shape : ∀ b ∈ s.freeBlocks ++ s.pageBlockList,
    b.len = PAGE_SIZE * 2 ^ b.order ∧ b.zone.lo ≤ b.base ∧ b.base + b.len ≤ b.zone.hi
  /-- Every free list is strictly sorted by base. -/
  sorted : ∀ i k, ((s.zone i).freeArea k).Pairwise (fun a b => a.base < b.base)
  /-- Together the blocks hold exactly the pages present at the start. -/
  union : ∀ p, (∃ b ∈ s.freeBlocks ++ s.pageBlockList, p ∈ b.pages)
    ↔ ∃ b ∈ init.freeBlocks ++ init.pageBlockList, p ∈ b.pages
  /-- The counters `nr_free_pages_` count the free lists of their zone. -/
  zoneCount : ∀ i, (s.zone i).nrFreePages = pageCount (s.zone i).blocks
  /-- The counter `gNrFreePages` counts all free lists. -/
  count : s.nrFreePages = pageCount s.freeBlocks

theorem freeArea_sublist_freeBlocks (s : State) (i : ZoneId) {k : Nat}
    (hk : k ≤ BUDDY_MAX_ORDER) : ((s.zone i).freeArea k).Sublist s.freeBlocks := by
  have hzone : ((s.zone i).freeArea k).Sublist (s.zone i).blocks :=
    sublist_flatten_of_mem (mem_map.mpr ⟨k, mem_range.mpr (by omega), rfl⟩)
  have hstate : (s.zone i).blocks.Sublist s.freeBlocks :=
    sublist_flatten_of_mem (mem_map.mpr ⟨i, by cases i <;> simp, rfl⟩)
  exact hzone.trans hstate

theorem Inv.block_wf (h : Inv P s) : ∀ b ∈ s.freeBlocks ++ s.pageBlockList, b.Wf := by
  intro b hb
  rcases mem_append.mp hb with hb | hb
  · obtain ⟨i, -, hi⟩ := mem_flatMap.mp hb
    obtain ⟨k, -, hk⟩ := mem_flatMap.mp hi
    exact ((h.zones i).block k b hk).1
  · exact h.allocated b hb

theorem Inv.pagesOf_blocks (h : Inv P s) : pagesOf (s.freeBlocks ++ s.pageBlockList) = P := by
  rw [pagesOf_append, State.pagesOf_freeBlocks, h.pages]

/-- When no page was there twice at the start, the invariant gives safety. -/
theorem safe_of_inv {init : State} (hP : P.Nodup) (hinit : Inv P init) (h : Inv P s) :
    Safe init s := by
  have hdisj : (s.freeBlocks ++ s.pageBlockList).Pairwise BlocksDisjoint :=
    pairwise_blocksDisjoint h.block_wf (by rw [h.pagesOf_blocks]; exact hP)
  refine ⟨hdisj, fun b hb => ?_, fun i k => ?_, fun p => ?_, fun i => ?_, ?_⟩
  · exact ⟨(h.block_wf b hb).len_eq, (h.block_wf b hb).lo_le, (h.block_wf b hb).le_hi⟩
  · by_cases hk : k ≤ BUDDY_MAX_ORDER
    · have hk_disj := (pairwise_append.mp hdisj).1.sublist (freeArea_sublist_freeBlocks s i hk)
      refine (((h.zones i).sorted k).and hk_disj).imp_of_mem ?_
      rintro a b ha hb ⟨hle, hab⟩
      -- disjoint blocks of positive length have different bases
      have ha_pos := ((h.zones i).block k a ha).1.len_pos
      have hb_pos := ((h.zones i).block k b hb).1.len_pos
      rcases hab with hab | hab
      · omega
      · omega
    · have hnil : (s.zone i).freeArea k = [] := by
        apply eq_nil_iff_forall_not_mem.mpr
        intro b hb
        obtain ⟨hbw, -, hbk⟩ := (h.zones i).block k b hb
        have := hbw.order_le
        omega
      rw [hnil]
      exact List.Pairwise.nil
  · rw [← mem_pagesOf, ← mem_pagesOf, h.pagesOf_blocks, hinit.pagesOf_blocks]
  · rw [h.zoneCount, ← pagesOf_blocks, card_pagesOf]
  · rw [h.count, ← State.pagesOf_freeBlocks, card_pagesOf]

/-! ## §3. Ranges of addresses. -/

/-- Address `a` lies in the range `r`, whose end may wrap around. -/
def InRange (r : Nat × Nat) (a : Nat) : Prop := u64Sub a r.1 < r.2

instance (r : Nat × Nat) (a : Nat) : Decidable (InRange r a) := by
  unfold InRange
  infer_instance

/-- Ranges of 64-bit words without a common address. -/
structure DisjointRanges (ranges : List (Nat × Nat)) : Prop where
  word : ∀ r ∈ ranges, r.1 < 2 ^ 64 ∧ r.2 < 2 ^ 64
  disjoint : ranges.Pairwise (fun r r' => ∀ a < 2 ^ 64, InRange r a → ¬ InRange r' a)

/-- The aligned part of a range lies in the range, also when its base wraps. -/
theorem inRange_of_alignArds {base len b n a : Nat} (hbase : base < 2 ^ 64) (hlen : len < 2 ^ 64)
    (h : alignArds base len = some (b, n)) (hb : b ≤ a) (hn : a < b + n) (ha : a < 2 ^ 64) :
    InRange (base, len) a := by
  have hps : PAGE_SIZE = 4096 := rfl
  unfold InRange
  unfold alignArds at h
  unfold u64Sub u64 at *
  rw [hps] at h
  split at h
  · simp only at h
    split at h
    · cases h
    · obtain ⟨rfl, rfl⟩ := Prod.mk.inj (Option.some.inj h)
      omega
  · cases h
    omega

/-- A freed page lies wholly in the range it was freed from. -/
theorem ardsPage_inRange {base len a : Nat} (hbase : base < 2 ^ 64) (hlen : len < 2 ^ 64)
    (h : ArdsPage kernelSize base len p) (hlo : PAGE_SIZE * p ≤ a) (hhi : a < PAGE_SIZE * (p + 1)) :
    a < 2 ^ 64 ∧ InRange (base, len) a := by
  obtain ⟨b, n, halign, hend, hb, hn, -, -⟩ := h
  exact ⟨by omega, inRange_of_alignArds hbase hlen halign (by omega) (by omega) (by omega)⟩

/-- Disjoint ranges free disjoint pages. -/
theorem DisjointRanges.ardsPage (h : DisjointRanges ranges) (kernelSize : Nat) :
    ranges.Pairwise fun r r' =>
      ∀ p, ArdsPage kernelSize r.1 r.2 p → ¬ ArdsPage kernelSize r'.1 r'.2 p := by
  refine h.disjoint.imp_of_mem ?_
  intro r r' hr hr' hdisj p hp hp'
  have hlt : PAGE_SIZE * p < PAGE_SIZE * (p + 1) :=
    Nat.mul_lt_mul_of_pos_left (by omega) (by decide)
  obtain ⟨hw, hin⟩ := ardsPage_inRange (h.word r hr).1 (h.word r hr).2 hp (Nat.le_refl _) hlt
  obtain ⟨-, hin'⟩ := ardsPage_inRange (h.word r' hr').1 (h.word r' hr').2 hp' (Nat.le_refl _) hlt
  exact hdisj _ hw hin hin'

/-- The free lists built from disjoint ranges hold no page twice. -/
theorem consumeRanges_inv {boot : BootState} (hranges : DisjointRanges ranges)
    (hboot : consumeRanges kernelSize ranges init = some boot) :
    ∃ P : Multiset Nat, P.Nodup ∧ Inv P boot.state := by
  obtain ⟨Q, hQ, hnd, -⟩ := consumeRanges_spec kernelSize ranges 0 init boot hranges.word
    (hranges.ardsPage kernelSize) bootInv_init hboot
  rw [zero_add] at hQ
  exact ⟨Q, hnd, hQ.inv⟩

/-! ## §4. Safety of every run. -/

/-- **Safety of the page allocator.**  After `handle_ards` was called on
pairwise disjoint ranges, every sequence of calls keeps the allocator safe. -/
theorem buddy_safety {kernelSize : Nat} {ranges : List (Nat × Nat)} {boot : BootState}
    (hranges : DisjointRanges ranges)
    (hboot : consumeRanges kernelSize ranges init = some boot) (ops : List Op) :
    Safe boot.state (run boot.state ops) := by
  obtain ⟨P, hnd, hinv⟩ := consumeRanges_inv hranges hboot
  exact safe_of_inv hnd hinv (run_inv hinv ops)

/-- The free lists of one range of five pages. -/
def fivePages : BootState :=
  (insertRange .dma init (PAGE_SIZE * 512) (PAGE_SIZE * 5)).getD init

theorem consumeRanges_fivePages :
    consumeRanges 0x1000 [(PAGE_SIZE * 512, PAGE_SIZE * 5)] init = some fivePages := by
  show (handleArds 0x1000 init (PAGE_SIZE * 512) (PAGE_SIZE * 5)).bind some = _
  rw [handleArds_uncut _ _ (by omega) (by omega) (.inl (by omega))]
  rfl

/-- A run that splits the block of four pages, fails one allocation for lack of
metadata and frees again. -/
theorem buddy_safety_fivePages : Safe fivePages.state (run fivePages.state
      [.alloc 0 0 (fun _ _ => true), .alloc 1 0 (fun _ _ => false), .alloc 0 0 (fun _ _ => true),
        .free (PAGE_SIZE * 516)]) :=
  buddy_safety ⟨by decide, pairwise_singleton _ _⟩ consumeRanges_fivePages _

/-- The free lists after two insertions of one page. -/
def onePageTwice : BootState :=
  ((insertRange .dma init (PAGE_SIZE * 512) (PAGE_SIZE * 1)).bind fun s =>
    insertRange .dma s (PAGE_SIZE * 512) (PAGE_SIZE * 1)).getD init

/-- Two calls of `handle_ards` on one page put it into the free lists twice. -/
theorem overlapping_ranges_share_a_page : consumeRanges 0x1000
        [(PAGE_SIZE * 512, PAGE_SIZE * 1), (PAGE_SIZE * 512, PAGE_SIZE * 1)] init
          = some onePageTwice ∧ ¬ Safe onePageTwice.state (run onePageTwice.state []) := by
  constructor
  · show ((handleArds 0x1000 init (PAGE_SIZE * 512) (PAGE_SIZE * 1)).bind fun s =>
      (handleArds 0x1000 s (PAGE_SIZE * 512) (PAGE_SIZE * 1)).bind some) = _
    simp only [handleArds_uncut 0x1000 _ (Nat.le_refl 512) Nat.one_pos
      (.inl (by omega : 512 + 1 ≤ 4096))]
    rfl
  · intro hsafe
    exact absurd hsafe.disjoint (by decide)

end BigOS.Mm.Buddy
