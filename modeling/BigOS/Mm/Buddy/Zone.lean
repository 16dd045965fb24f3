/-
  BigOS.Mm.Buddy.Zone — what freeing and splitting do to one zone.

  The pages of a zone are the multiset of the page numbers of its free
  blocks.  Every operation is described by one equation on that multiset, so
  that "no page lost, none doubled" is bookkeeping of multisets:

    * `baseFree_pages` — freeing adds exactly the pages of the block,
      whatever merges it starts;
    * `alloc_spec` — an allocation moves pages out of the free lists, a
      failed one (also one that fails half-way through a split) moves none.

  Each comes with the shape of the lists (`Wf`): sorted by base, every
  block of the list's order, of its length, aligned and inside the zone.
-/
import BigOS.Mm.Buddy.Model
import Mathlib.Algebra.BigOperators.Group.Finset.Basic
import Mathlib.Data.List.TakeWhile
import Mathlib.Tactic.Abel

namespace BigOS.Mm.Buddy

open BigOS.Lib.Carve Zone List

variable {z z' : Zone} {k base : Nat} {i : ZoneId} {ls : List PageBlock} {b joined c a : PageBlock}

/-! ## §1. Pages of blocks, lists and zones. -/

/-- The page numbers of a block. -/
def PageBlock.pages (b : PageBlock) : Multiset Nat :=
  (List.range' (b.base / PAGE_SIZE) (2 ^ b.order) : List Nat)

/-- The page numbers of a list of blocks. -/
def pagesOf (ls : List PageBlock) : Multiset Nat := (ls.map PageBlock.pages).sum

/-- The page numbers of the free blocks of a zone. -/
def Zone.pages (z : Zone) : Multiset Nat :=
  ∑ k ∈ Finset.range (BUDDY_MAX_ORDER + 1), pagesOf (z.freeArea k)

@[simp] theorem PageBlock.card_pages (b : PageBlock) : b.pages.card = 2 ^ b.order := by
  simp [PageBlock.pages]

@[simp] theorem pagesOf_nil : pagesOf [] = 0 := rfl

@[simp] theorem pagesOf_cons (b : PageBlock) (ls : List PageBlock) :
    pagesOf (b :: ls) = b.pages + pagesOf ls := by
  simp [pagesOf]

@[simp] theorem pagesOf_append (ls ls' : List PageBlock) :
    pagesOf (ls ++ ls') = pagesOf ls + pagesOf ls' := by
  simp [pagesOf]

theorem pagesOf_eq_coe_flatMap (ls : List PageBlock) : pagesOf ls = (ls.flatMap
      (fun b => List.range' (b.base / PAGE_SIZE) (2 ^ b.order)) : List Nat) := by
  induction ls with
  | nil => rfl
  | cons b ls ih => rw [pagesOf_cons, ih, flatMap_cons, ← Multiset.coe_add]; rfl

-- Stated over arbitrary counters: the kernel would otherwise compare a zone
-- with itself through the wrap-around arithmetic of the new counter.
theorem Zone.withCounters_freeArea (z : Zone) (n f : Nat) :
    ({ z with nrPages := n, nrFreePages := f } : Zone).freeArea = z.freeArea := rfl

/-- The pages of a zone do not depend on its counters. -/
theorem Zone.pages_congr (h : z.freeArea = z'.freeArea) : z.pages = z'.pages := by
  unfold pages
  rw [h]

/-- Replacing one list exchanges its pages. -/
theorem Zone.setArea_pages (z : Zone) (hk : k ≤ BUDDY_MAX_ORDER) (ls : List PageBlock) :
    (z.setArea k ls).pages + pagesOf (z.freeArea k) = z.pages + pagesOf ls := by
  have hmem : k ∈ Finset.range (BUDDY_MAX_ORDER + 1) := Finset.mem_range.mpr (by omega)
  have hrest : ∑ j ∈ (Finset.range (BUDDY_MAX_ORDER + 1)).erase k,
        pagesOf ((z.setArea k ls).freeArea j)
      = ∑ j ∈ (Finset.range (BUDDY_MAX_ORDER + 1)).erase k, pagesOf (z.freeArea j) :=
    Finset.sum_congr rfl (fun j hj => by rw [z.setArea_other (Finset.ne_of_mem_erase hj)])
  unfold pages
  rw [← Finset.add_sum_erase _ _ hmem, ← Finset.add_sum_erase _ _ hmem, hrest, setArea_self]
  abel

/-- The insertion position splits the list. -/
theorem lowerPart_append_upperPart (base : Nat) (ls : List PageBlock) :
    lowerPart base ls ++ upperPart base ls = ls :=
  takeWhile_append_dropWhile

theorem pagesOf_insertByBase (b : PageBlock) (ls : List PageBlock) :
    pagesOf (insertByBase b ls) = b.pages + pagesOf ls := by
  conv_rhs => rw [← lowerPart_append_upperPart b.base ls]
  unfold insertByBase
  simp only [pagesOf_append, pagesOf_cons]
  abel

/-! ## §2. Well-formed blocks and zones. -/

/-- The first address of a zone (`handle_ards` fills `zone_dma` below
`DMA_LIMIT`, `zone_dma32` below `DMA32_LIMIT`, `zone_normal` above). -/
def ZoneId.lo : ZoneId → Nat
  | .dma => 0
  | .dma32 => 0x1000000
  | .normal => 0x100000000

/-- The end address of a zone. -/
def ZoneId.hi : ZoneId → Nat
  | .dma => 0x1000000
  | .dma32 => 0x100000000
  | .normal => 2 ^ 64

/-- A block of its order's length, page aligned, inside the zone it points to. -/
structure PageBlock.Wf (b : PageBlock) : Prop where
  order_le : b.order ≤ BUDDY_MAX_ORDER
  len_eq : b.len = getPblkSize b.order
  aligned : PAGE_SIZE ∣ b.base
  lo_le : b.zone.lo ≤ b.base
  le_hi : b.base + b.len ≤ b.zone.hi

/-- The free lists of zone `i`: sorted by base, every block well formed, in
its own zone and in the list of its order. -/
structure Zone.Wf (i : ZoneId) (z : Zone) : Prop where
  block : ∀ k, ∀ b ∈ z.freeArea k, b.Wf ∧ b.zone = i ∧ b.order = k
  sorted : ∀ k, (z.freeArea k).Pairwise (fun a b => a.base ≤ b.base)

theorem Zone.Wf.congr (hz : z.Wf i) (h : z'.freeArea = z.freeArea) : z'.Wf i :=
  ⟨by rw [h]; exact hz.block, by rw [h]; exact hz.sorted⟩

theorem Zone.Wf.setArea (hz : z.Wf i) (hb : ∀ b ∈ ls, b.Wf ∧ b.zone = i ∧ b.order = k)
    (hs : ls.Pairwise (fun a b => a.base ≤ b.base)) : (z.setArea k ls).Wf i := by
  refine ⟨fun j => ?_, fun j => ?_⟩
  · by_cases hj : j = k
    · subst hj
      rw [setArea_self]
      exact hb
    · rw [z.setArea_other hj]
      exact hz.block j
  · by_cases hj : j = k
    · subst hj
      rw [setArea_self]
      exact hs
    · rw [z.setArea_other hj]
      exact hz.sorted j

/-- Two adjacent blocks of order `k` are the pages of one block of order
`k + 1`. -/
theorem pages_join (ha : a.Wf) (hord : b.order = a.order)
    (hadj : a.base + a.len = b.base) (c : PageBlock) (hcb : c.base = a.base)
    (hco : c.order = a.order + 1) : c.pages = a.pages + b.pages := by
  obtain ⟨q, hq⟩ := ha.aligned
  have hlen : a.len = PAGE_SIZE * 2 ^ a.order := ha.len_eq
  have hpos : 0 < PAGE_SIZE := by decide
  have hb : b.base / PAGE_SIZE = q + 2 ^ a.order := by
    rw [← hadj, hq, hlen, ← Nat.mul_add, Nat.mul_div_cancel_left _ hpos]
  have hc : c.base / PAGE_SIZE = q := by
    rw [hcb, hq, Nat.mul_div_cancel_left _ hpos]
  unfold PageBlock.pages
  rw [hc, hb, hco, hord, hq, Nat.mul_div_cancel_left _ hpos, Multiset.coe_add,
    List.range'_append_1, Nat.pow_succ, Nat.mul_two]

/-! ## §3. Insertion and merge. -/

theorem mem_insertByBase : c ∈ insertByBase b ls ↔ c = b ∨ c ∈ ls := by
  conv_rhs => rw [← lowerPart_append_upperPart b.base ls]
  unfold insertByBase
  simp only [mem_append, mem_cons]
  tauto

theorem lowerPart_base_le (h : b ∈ lowerPart base ls) : b.base ≤ base := by
  simpa using mem_takeWhile_imp h

/-- In a sorted list every block from the insertion position on lies above. -/
theorem upperPart_base_lt (hs : ls.Pairwise (fun a b => a.base ≤ b.base)) :
    ∀ b ∈ upperPart base ls, base < b.base := by
  induction ls with
  | nil => intro b hb; simp [upperPart] at hb
  | cons a ls ih =>
    intro b hb
    rw [pairwise_cons] at hs
    unfold upperPart at hb
    rw [dropWhile_cons] at hb
    split at hb
    · exact ih hs.2 b hb
    next hstop =>
      have hlt : base < a.base := by simpa using hstop
      rcases mem_cons.mp hb with rfl | hmem
      · exact hlt
      · exact Nat.lt_of_lt_of_le hlt (hs.1 b hmem)

theorem insertByBase_sorted (hs : ls.Pairwise (fun a b => a.base ≤ b.base)) :
    (insertByBase b ls).Pairwise (fun a b => a.base ≤ b.base) := by
  have hparts : (lowerPart b.base ls ++ upperPart b.base ls).Pairwise
      (fun a b => a.base ≤ b.base) := by
    rwa [lowerPart_append_upperPart]
  obtain ⟨hlow, hup, hcross⟩ := pairwise_append.mp hparts
  refine pairwise_append.mpr ⟨hlow, pairwise_cons.mpr ⟨?_, hup⟩, ?_⟩
  · intro c hc
    exact (upperPart_base_lt hs c hc).le
  · intro a ha c hc
    rcases mem_cons.mp hc with rfl | hc
    · exact lowerPart_base_le ha
    · exact hcross a ha c hc

/-- What a merge does: it takes one adjacent block out of the list and joins it
with `b`, at the lower address of the two. -/
theorem merge_cases {lower upper : List PageBlock} (h : merge lower b upper = some (ls, joined)) :
    b.order < BUDDY_MAX_ORDER ∧
      ((∃ next rest, upper = next :: rest ∧ b.base + b.len = next.base ∧ ls = lower ++ rest
          ∧ joined = { b with len := b.len + next.len, order := b.order + 1 })
        ∨ (∃ init prev, lower = init ++ [prev] ∧ prev.base + prev.len = b.base ∧ ls = init ++ upper
          ∧ joined = { prev with len := prev.len + b.len, order := prev.order + 1 })) := by
  have hprev : ∀ {ls joined}, mergePrev lower b upper = some (ls, joined) →
      ∃ init prev, lower = init ++ [prev] ∧ prev.base + prev.len = b.base ∧ ls = init ++ upper
        ∧ joined = { prev with len := prev.len + b.len, order := prev.order + 1 } := by
    intro ls joined hp
    unfold mergePrev at hp
    split at hp
    next prev hlast =>
      split at hp
      next hadj =>
        cases hp
        obtain ⟨init, rfl⟩ := getLast?_eq_some_iff.mp hlast
        exact ⟨init, prev, rfl, hadj, by rw [dropLast_concat], rfl⟩
      next => cases hp
    next => cases hp
  unfold merge at h
  split at h
  next => cases h
  refine ⟨by omega, ?_⟩
  split at h
  next next rest =>
    split at h
    next hadj =>
      cases h
      exact .inl ⟨next, rest, rfl, hadj, rfl, rfl⟩
    next => exact .inr (hprev h)
  next => exact .inr (hprev h)

/-- A block and the one that follows it, joined. -/
theorem join_spec (ha : a.Wf ∧ a.zone = i ∧ a.order = k)
    (hc : c.Wf ∧ c.zone = i ∧ c.order = k) (hadj : a.base + a.len = c.base)
    (hlt : k < BUDDY_MAX_ORDER)
    (hjoined : joined = { a with len := a.len + c.len, order := a.order + 1 }) :
    joined.Wf ∧ joined.zone = i ∧ joined.order = k + 1 ∧ joined.pages = a.pages + c.pages := by
  obtain ⟨ha, haz, hak⟩ := ha
  obtain ⟨hc, hcz, hck⟩ := hc
  subst hjoined
  refine ⟨⟨?_, ?_, ha.aligned, ha.lo_le, ?_⟩, haz, congrArg (· + 1) hak,
    pages_join ha (hck.trans hak.symm) hadj _ rfl rfl⟩
  · show a.order + 1 ≤ BUDDY_MAX_ORDER
    omega
  · show a.len + c.len = getPblkSize (a.order + 1)
    rw [ha.len_eq, hc.len_eq, hck, hak]
    unfold getPblkSize
    rw [Nat.pow_succ, ← Nat.mul_assoc, Nat.mul_two]
  · show a.base + (a.len + c.len) ≤ a.zone.hi
    rw [← Nat.add_assoc, hadj, haz, ← hcz]
    exact hc.le_hi

/-- The step of `__base_free` that merges: the joined block and the list left
hold the same pages as the block and the list before, and keep their shape. -/
theorem merge_spec {lower upper : List PageBlock} (hb : b.Wf) (hbz : b.zone = i) (hbk : b.order = k)
    (hls : ∀ c ∈ lower ++ upper, c.Wf ∧ c.zone = i ∧ c.order = k)
    (h : merge lower b upper = some (ls, joined)) :
    joined.Wf ∧ joined.zone = i ∧ joined.order = k + 1 ∧ k < BUDDY_MAX_ORDER
      ∧ ls.Sublist (lower ++ upper)
      ∧ pagesOf ls + joined.pages = pagesOf (lower ++ upper) + b.pages := by
  obtain ⟨hlt, hcases⟩ := merge_cases h
  rw [hbk] at hlt
  rcases hcases with ⟨next, rest, rfl, hadj, rfl, hj⟩ | ⟨init, prev, rfl, hadj, rfl, hj⟩
  · -- joined with the next block: `b` is the lower one
    obtain ⟨hwf, hzone, horder, hpages⟩ := join_spec ⟨hb, hbz, hbk⟩ (hls next (by simp)) hadj hlt hj
    refine ⟨hwf, hzone, horder, hlt, (Sublist.refl _).append (sublist_cons_self _ _), ?_⟩
    rw [hpages]
    simp only [pagesOf_append, pagesOf_cons]
    abel
  · -- joined with the previous block, which is the lower one
    obtain ⟨hwf, hzone, horder, hpages⟩ := join_spec (hls prev (by simp)) ⟨hb, hbz, hbk⟩ hadj hlt hj
    refine ⟨hwf, hzone, horder, hlt, (sublist_append_left _ _).append (Sublist.refl _), ?_⟩
    rw [hpages]
    simp only [pagesOf_append, pagesOf_cons, pagesOf_nil, add_zero]
    abel

/-! ## §4. `__base_free`. -/

/-- A merge moves pages between one list and the block, and loses none. -/
theorem setArea_merge_pages (hk : k ≤ BUDDY_MAX_ORDER)
    (hpages : pagesOf ls + joined.pages = pagesOf (z.freeArea k) + b.pages) :
    (z.setArea k ls).pages + joined.pages = z.pages + b.pages := by
  have hset := z.setArea_pages hk ls
  apply add_right_cancel (b := pagesOf (z.freeArea k))
  calc (z.setArea k ls).pages + joined.pages + pagesOf (z.freeArea k)
      = (z.setArea k ls).pages + pagesOf (z.freeArea k) + joined.pages := by abel
    _ = z.pages + (pagesOf ls + joined.pages) := by rw [hset]; abel
    _ = z.pages + b.pages + pagesOf (z.freeArea k) := by rw [hpages]; abel

/-- A block that is put into the list of its order. -/
theorem insert_spec (hz : z.Wf i) (hb : b.Wf) (hbz : b.zone = i) :
    (z.setArea b.order (insertByBase b (z.freeArea b.order))).Wf i ∧
      (z.setArea b.order (insertByBase b (z.freeArea b.order))).pages = z.pages + b.pages := by
  refine ⟨hz.setArea (fun c hc => ?_) (insertByBase_sorted (hz.sorted _)), ?_⟩
  · rcases mem_insertByBase.mp hc with rfl | hc
    · exact ⟨hb, hbz, rfl⟩
    · exact hz.block _ c hc
  · have := z.setArea_pages hb.order_le (insertByBase b (z.freeArea b.order))
    rw [pagesOf_insertByBase, ← add_assoc] at this
    exact add_right_cancel this

/-- Freeing keeps the shape of the lists, adds the pages of the block and
leaves the counters alone.  The induction is on the rounds left: one more
order, one round less. -/
theorem baseFreeLoop_spec :
    ∀ (fuel : Nat) (z : Zone) (b : PageBlock), fuel + b.order = BUDDY_MAX_ORDER + 1 →
      b.Wf → b.zone = i → z.Wf i →
      (baseFreeLoop fuel z b).Wf i ∧ (baseFreeLoop fuel z b).pages = z.pages + b.pages
        ∧ (baseFreeLoop fuel z b).nrPages = z.nrPages
        ∧ (baseFreeLoop fuel z b).nrFreePages = z.nrFreePages := by
  intro fuel
  induction fuel with
  | zero =>
    intro z b hfuel hb _ _
    have := hb.order_le
    omega
  | succ fuel ih =>
    intro z b hfuel hb hbz hz
    have hk := hb.order_le
    have hls := hz.block b.order
    unfold baseFreeLoop
    rw [if_neg (by omega)]
    simp only
    split
    next hm =>
      -- no neighbour to join: the block is inserted
      obtain ⟨hwf, hpages⟩ := insert_spec hz hb hbz
      exact ⟨hwf, hpages, rfl, rfl⟩
    next ls' joined hm =>
      -- joined: one block leaves the list, the larger block is freed in turn
      obtain ⟨hj, hjz, hjo, hlt, hsub, hpages⟩ := merge_spec hb hbz rfl
        (by rw [lowerPart_append_upperPart]; exact hls) hm
      rw [lowerPart_append_upperPart] at hsub hpages
      have hz' : (z.setArea b.order ls').Wf i :=
        hz.setArea (fun c hc => hls c (hsub.subset hc)) ((hz.sorted _).sublist hsub)
      obtain ⟨h1, h2, h3, h4⟩ := ih (z.setArea b.order ls') joined (by omega) hj hjz hz'
      refine ⟨h1, ?_, h3, h4⟩
      rw [h2, setArea_merge_pages hk hpages]

section

variable (hz : z.Wf i) (hb : b.Wf) (hbz : b.zone = i) {order : Nat}

include hz hb hbz

theorem baseFree_wf : (z.baseFree b).Wf i :=
  (baseFreeLoop_spec _ z b (by have := hb.order_le; omega) hb hbz hz).1

theorem baseFree_pages : (z.baseFree b).pages = z.pages + b.pages :=
  (baseFreeLoop_spec _ z b (by have := hb.order_le; omega) hb hbz hz).2.1

theorem baseFree_counters :
    (z.baseFree b).nrPages = z.nrPages ∧ (z.baseFree b).nrFreePages = z.nrFreePages :=
  (baseFreeLoop_spec _ z b (by have := hb.order_le; omega) hb hbz hz).2.2

end

/-- Freeing the blocks of a list one after the other. -/
theorem foldl_baseFree_spec :
    ∀ (bs : List PageBlock) (z : Zone), z.Wf i → (∀ b ∈ bs, b.Wf ∧ b.zone = i) →
      (bs.foldl baseFree z).Wf i ∧ (bs.foldl baseFree z).pages = z.pages + pagesOf bs
        ∧ (bs.foldl baseFree z).nrFreePages = z.nrFreePages := by
  intro bs
  induction bs with
  | nil => intro z hz _; exact ⟨hz, by simp, rfl⟩
  | cons b bs ih =>
    intro z hz hbs
    obtain ⟨hb, hbz⟩ := hbs b mem_cons_self
    obtain ⟨h1, h2, h3⟩ := ih (z.baseFree b) (baseFree_wf hz hb hbz)
      (fun c hc => hbs c (mem_cons_of_mem _ hc))
    refine ⟨h1, ?_, ?_⟩
    · show (bs.foldl baseFree (z.baseFree b)).pages = _
      rw [h2, baseFree_pages hz hb hbz, pagesOf_cons]
      abel
    · show (bs.foldl baseFree (z.baseFree b)).nrFreePages = _
      rw [h3, (baseFree_counters hz hb hbz).2]

/-! ## §5. Splitting a block. -/

/-- The blocks over the chunks of a range of whole pages hold its pages. -/
theorem pagesOf_chunkBlocks (i : ZoneId) (flags q n : Nat) :
    pagesOf ((carve PAGE_SIZE BUDDY_MAX_ORDER (PAGE_SIZE * q) (PAGE_SIZE * n)).map
        (chunkBlock i flags)) = (List.range' q n : List Nat) := by
  rw [pagesOf_eq_coe_flatMap, flatMap_map]
  exact congrArg _ (carve_cells (by decide) BUDDY_MAX_ORDER q n)

/-- Every block over a chunk of a range inside a zone is well formed. -/
theorem chunkBlock_wf {q n : Nat} (hlo : i.lo ≤ PAGE_SIZE * q) (hhi : PAGE_SIZE * (q + n) ≤ i.hi)
    (flags : Nat) : ∀ b ∈ (carve PAGE_SIZE BUDDY_MAX_ORDER (PAGE_SIZE * q) (PAGE_SIZE * n)).map
        (chunkBlock i flags), b.Wf ∧ b.zone = i := by
  intro b hb
  obtain ⟨c, hc, rfl⟩ := mem_map.mp hb
  obtain ⟨a, ha, hqa, han⟩ := carve_base (by decide) BUDDY_MAX_ORDER q n c hc
  refine ⟨⟨carve_order_le BUDDY_MAX_ORDER _ _ c hc, rfl, ⟨a, ha⟩, ?_, ?_⟩, rfl⟩
  · show i.lo ≤ c.base
    rw [ha]
    exact Nat.le_trans hlo (Nat.mul_le_mul_left _ hqa)
  · show c.base + PAGE_SIZE * 2 ^ c.order ≤ i.hi
    rw [ha, ← Nat.mul_add]
    exact Nat.le_trans (Nat.mul_le_mul_left _ han) hhi

/-- The head a split hands out and the pieces it frees are the pages of the
block, each piece well formed. -/
theorem split_spec (hb : b.Wf) (hbz : b.zone = i) (hlt : order < b.order) :
    ({ b with order := order, len := getPblkSize order } : PageBlock).Wf
      ∧ (∀ p ∈ splitPieces i b b.order order, p.Wf ∧ p.zone = i)
      ∧ ({ b with order := order, len := getPblkSize order } : PageBlock).pages
          + pagesOf (splitPieces i b b.order order) = b.pages := by
  obtain ⟨q, hq⟩ := hb.aligned
  have hpow : 2 ^ order ≤ 2 ^ b.order := Nat.pow_le_pow_right (by omega) (by omega)
  have hlen : b.len = PAGE_SIZE * 2 ^ b.order := hb.len_eq
  have hbase : b.base + getPblkSize order = PAGE_SIZE * (q + 2 ^ order) := by
    rw [hq]; unfold getPblkSize; rw [Nat.mul_add]
  have hend : PAGE_SIZE * (q + 2 ^ b.order) ≤ i.hi := by
    rw [Nat.mul_add, ← hq, ← hlen, ← hbz]
    exact hb.le_hi
  have hlo : i.lo ≤ PAGE_SIZE * q := by rw [← hq, ← hbz]; exact hb.lo_le
  refine ⟨⟨?_, rfl, ⟨q, hq⟩, hb.lo_le, ?_⟩, ?_, ?_⟩
  · have := hb.order_le
    simp only
    omega
  · simp only
    rw [hbase, hbz]
    exact Nat.le_trans (Nat.mul_le_mul_left _ (by omega)) hend
  · unfold splitPieces
    rw [hbase]
    apply chunkBlock_wf
    · exact Nat.le_trans hlo (Nat.mul_le_mul_left _ (Nat.le_add_right _ _))
    · rw [show q + 2 ^ order + (2 ^ b.order - 2 ^ order) = q + 2 ^ b.order by omega]
      exact hend
  · unfold splitPieces
    rw [hbase, pagesOf_chunkBlocks]
    unfold PageBlock.pages
    rw [hq, Nat.mul_div_cancel_left _ (by decide), Multiset.coe_add, List.range'_append_1,
      show 2 ^ order + (2 ^ b.order - 2 ^ order) = 2 ^ b.order by omega]

/-! ## §6. `Zone::alloc`. -/

@[simp] theorem Zone.take_freeArea (z : Zone) (b : PageBlock) : (z.take b).freeArea = z.freeArea :=
  z.withCounters_freeArea _ _

@[simp] theorem Zone.take_pages (z : Zone) (b : PageBlock) : (z.take b).pages = z.pages :=
  pages_congr (z.take_freeArea b)

@[simp] theorem Zone.take_nrFreePages (z : Zone) (b : PageBlock) :
    (z.take b).nrFreePages = u32Sub z.nrFreePages (2 ^ b.order) := by
  simp only [take]

theorem Zone.Wf.take (hz : z.Wf i) (b : PageBlock) : (z.take b).Wf i := hz.congr (z.take_freeArea b)

theorem findOrder_spec (h : z.findOrder order = some k) :
    order ≤ k ∧ k ≤ BUDDY_MAX_ORDER ∧ z.freeArea k ≠ []
      ∧ ∀ j, order ≤ j → j < k → z.freeArea j = [] := by
  obtain ⟨hpred, hmem, hbefore⟩ := find?_range'_eq_some.mp h
  rw [mem_range'_1] at hmem
  refine ⟨hmem.1, by omega, by simpa using hpred, fun j hj hjk => ?_⟩
  simpa using hbefore j hj hjk

/-- The four ways `Zone::alloc` can end: no list to take from; the head of the
list of the order; the head of a larger order, split; the larger head put back
because a metadata allocation of the split failed. -/
theorem alloc_cases (hz : z.Wf i) (order : Nat) (news : Nat → Bool) :
    (z.findOrder order = none ∧ z.alloc i order news = (z, none))
    ∨ (∃ b rest, z.findOrder order = some order ∧ z.freeArea order = b :: rest
        ∧ z.alloc i order news = ((z.setArea order rest).take b, some b))
    ∨ (∃ b rest, z.findOrder order = some b.order ∧ order < b.order ∧ z.freeArea b.order = b :: rest
        ∧ z.alloc i order news
          = (((splitPieces i b b.order order).foldl baseFree (z.setArea b.order rest)).take
              { b with order := order, len := getPblkSize order },
            some { b with order := order, len := getPblkSize order }))
    ∨ (∃ b rest, z.findOrder order = some b.order ∧ order < b.order ∧ z.freeArea b.order = b :: rest
        ∧ z.alloc i order news
          = ((z.setArea b.order rest).setArea b.order
              (insertByBase b ((z.setArea b.order rest).freeArea b.order)), none)) := by
  unfold alloc
  cases hfind : z.findOrder order with
  | none => exact .inl ⟨rfl, rfl⟩
  | some k =>
    obtain ⟨hle, -, hne, -⟩ := findOrder_spec hfind
    cases hlist : z.freeArea k with
    | nil => exact absurd hlist hne
    | cons b rest =>
      have hbk : b.order = k := (hz.block k b (by rw [hlist]; exact mem_cons_self)).2.2
      subst hbk
      by_cases hlt : order < b.order
      · by_cases hnews : (List.range (2 * (splitPieces i b b.order order).length)).all news = true
        · refine .inr (.inr (.inl ⟨b, rest, rfl, hlt, hlist, ?_⟩))
          simp only [hlist, if_pos hlt, if_pos hnews]
        · refine .inr (.inr (.inr ⟨b, rest, rfl, hlt, hlist, ?_⟩))
          simp only [hlist, if_pos hlt, if_neg hnews]
      · have hk : b.order = order := by omega
        refine .inr (.inl ⟨b, rest, by rw [hk], by rw [← hk, hlist], ?_⟩)
        simp only [hlist, if_neg hlt]
        rw [hk]

/-- Taking the head of a list out of a zone. -/
theorem takeHead_spec (hz : z.Wf i) {rest : List PageBlock} (hlist : z.freeArea k = b :: rest) :
    b.Wf ∧ b.zone = i ∧ b.order = k ∧ (z.setArea k rest).Wf i
      ∧ (z.setArea k rest).pages + b.pages = z.pages := by
  obtain ⟨hb, hbz, hbk⟩ := hz.block k b (by rw [hlist]; exact mem_cons_self)
  refine ⟨hb, hbz, hbk, hz.setArea (fun c hc => hz.block k c ?_) ?_, ?_⟩
  · rw [hlist]
    exact mem_cons_of_mem _ hc
  · have := hz.sorted k
    rw [hlist] at this
    exact (pairwise_cons.mp this).2
  · have := z.setArea_pages (hbk ▸ hb.order_le) rest
    rw [hlist, pagesOf_cons, ← add_assoc] at this
    exact add_right_cancel this

/-- Every allocation of a zone: on success a well-formed block of the order
leaves the free lists with exactly its pages, on failure no page moves. -/
theorem alloc_spec (hz : z.Wf i) (order : Nat) (news : Nat → Bool) : (z.alloc i order news).1.Wf i ∧
      ((z.alloc i order news).2 = none → (z.alloc i order news).1.pages = z.pages
          ∧ (z.alloc i order news).1.nrFreePages = z.nrFreePages)
      ∧ (∀ b, (z.alloc i order news).2 = some b → b.Wf ∧ b.zone = i ∧ b.order = order
          ∧ (z.alloc i order news).1.pages + b.pages = z.pages
          ∧ (z.alloc i order news).1.nrFreePages = u32Sub z.nrFreePages (2 ^ b.order)) := by
  rcases alloc_cases hz order news with ⟨-, h⟩ | ⟨b, rest, -, hlist, h⟩
    | ⟨b, rest, -, hlt, hlist, h⟩ | ⟨b, rest, -, hlt, hlist, h⟩
  · rw [h]
    exact ⟨hz, fun _ => ⟨rfl, rfl⟩, fun b hb => absurd hb (by simp)⟩
  · rw [h]
    obtain ⟨hb, hbz, hbk, hz1, hp1⟩ := takeHead_spec hz hlist
    refine ⟨hz1.take b, fun hn => absurd hn (by simp), ?_⟩
    rintro c hc
    obtain rfl : b = c := Option.some.inj hc
    refine ⟨hb, hbz, hbk, ?_, ?_⟩
    · rw [take_pages, hp1]
    · rw [take_nrFreePages, setArea_nrFreePages]
  · rw [h]
    obtain ⟨hb, hbz, -, hz1, hp1⟩ := takeHead_spec hz hlist
    obtain ⟨hhead, hpieces, hsum⟩ := split_spec hb hbz hlt
    obtain ⟨hw, hp, hc⟩ := foldl_baseFree_spec _ (z.setArea b.order rest) hz1 hpieces
    refine ⟨hw.take _, fun hn => absurd hn (by simp), ?_⟩
    rintro c hcc
    rw [← Option.some.inj hcc]
    refine ⟨hhead, hbz, rfl, ?_, ?_⟩
    · rw [take_pages, hp, ← hp1, ← hsum]
      abel
    · rw [take_nrFreePages, hc, setArea_nrFreePages]
  · -- the split failed: the list of the block's order gets the block back
    rw [h]
    obtain ⟨hb, hbz, -, hz1, hp1⟩ := takeHead_spec hz hlist
    obtain ⟨hwf, hpages⟩ := insert_spec hz1 hb hbz
    exact ⟨hwf, fun _ => ⟨hpages.trans hp1, rfl⟩, fun c hc => absurd hc (by simp)⟩

end BigOS.Mm.Buddy
