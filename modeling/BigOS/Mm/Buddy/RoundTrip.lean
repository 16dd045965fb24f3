/-
  BigOS.Mm.Buddy.RoundTrip — when freeing undoes an allocation.

  A split hands out the head of a block and frees the rest as a ladder of
  pieces, the largest first.  Freed again, the head meets a piece of its own
  order only when the split was by one order; otherwise the ladder stays, and
  the block is gone for good unless something is allocated out of it again.

    * `roundTrip_cases` — the lists are restored when the block had the order asked
      for, or the next one (`baseFree_half`);
    * `foldl_ladder` — otherwise the ladder is what is left;
    * `roundTrip_iff` — so the pair keeps every order available exactly when
      `FreeUndoesAlloc` holds before it.
-/
import BigOS.Mm.Buddy.Safety

namespace BigOS.Mm.Buddy

open BigOS.Lib.Carve BootState Zone List

variable {z w z' : Zone} {b b' : PageBlock} {i : ZoneId} {order k : Nat} {rest : List PageBlock}

/-! ## §1. Freeing into a list. -/

/-- One round of `__base_free` that joins. -/
theorem baseFree_of_merge {joined : PageBlock} {ls : List PageBlock}
    (hm : merge (lowerPart b.base (z.freeArea b.order)) b
      (upperPart b.base (z.freeArea b.order)) = some (ls, joined))
    (hk : b.order < BUDDY_MAX_ORDER) (hjo : joined.order = b.order + 1) :
    z.baseFree b = (z.setArea b.order ls).baseFree joined := by
  unfold baseFree
  rw [show BUDDY_MAX_ORDER + 1 - b.order = (BUDDY_MAX_ORDER + 1 - joined.order) + 1 by omega]
  rw [baseFreeLoop, if_neg (by omega)]
  simp only [hm]

/-- A block below every block of its list, adjacent to none, becomes the head. -/
theorem baseFree_below (hk : b.order ≤ BUDDY_MAX_ORDER)
    (hlow : ∀ c ∈ z.freeArea b.order, b.base < c.base)
    (hadj : b.order < BUDDY_MAX_ORDER → ∀ c ∈ (z.freeArea b.order).head?, b.base + b.len ≠ c.base) :
    z.baseFree b = z.setArea b.order (b :: z.freeArea b.order) := by
  obtain ⟨hlower, hupper⟩ : lowerPart b.base (z.freeArea b.order) = []
      ∧ upperPart b.base (z.freeArea b.order) = z.freeArea b.order := by
    unfold lowerPart upperPart
    cases hls : z.freeArea b.order with
    | nil => exact ⟨rfl, rfl⟩
    | cons c =>
      have hc := hlow c (by rw [hls]; exact mem_cons_self)
      constructor
      · rw [takeWhile_cons_of_neg]
        simpa using hc
      · rw [dropWhile_cons_of_neg]
        simpa using hc
  have hm : merge (lowerPart b.base (z.freeArea b.order)) b
      (upperPart b.base (z.freeArea b.order)) = none := by
    by_cases hlt : b.order < BUDDY_MAX_ORDER
    · rw [merge_eq_none_iff hlt, hlower, hupper]
      exact ⟨hadj hlt, by simp⟩
    · unfold merge
      rw [if_pos (by omega)]
  unfold baseFree
  rw [show BUDDY_MAX_ORDER + 1 - b.order = (BUDDY_MAX_ORDER - b.order) + 1 by omega]
  unfold baseFreeLoop
  rw [if_neg (by omega)]
  simp only [hm]
  unfold insertByBase
  rw [hlower, hupper, nil_append]

/-- A block that finds its list empty is its only element. -/
theorem baseFree_of_nil (hk : b.order ≤ BUDDY_MAX_ORDER) (hnil : z.freeArea b.order = []) :
    z.baseFree b = z.setArea b.order [b] := by
  have hbelow := baseFree_below (z := z) hk (by rw [hnil]; simp) (by rw [hnil]; simp)
  rwa [hnil] at hbelow

/-- The head of a list of a safe zone returns to its place. -/
theorem baseFree_head (hz : z.Wf i) (hco : z.Coalesced)
    (hsorted : (z.freeArea b.order).Pairwise (fun a b => a.base < b.base))
    (hlist : z.freeArea b.order = b :: rest) (hw : w.freeArea b.order = rest) :
    w.baseFree b = w.setArea b.order (b :: rest) := by
  have hb := (hz.block b.order b (by rw [hlist]; exact mem_cons_self)).1
  rw [← hw]
  apply baseFree_below hb.order_le
  · intro c hc
    rw [hw] at hc
    rw [hlist] at hsorted
    exact (pairwise_cons.mp hsorted).1 c hc
  · intro hlt c hc
    have hcr : c ∈ rest := by rw [← hw]; exact mem_of_head? hc
    apply hco _ hlt
    · rw [hlist]; exact mem_cons_self
    · rw [hlist]; exact mem_cons_of_mem _ hcr

/-! ## §2. The pieces of a split. -/

/-- Freed into empty lists, the pieces of a ladder stay apart: one block in
each list, the one of the lowest order at the end of the range. -/
theorem foldl_ladder (i : ZoneId) (flags o : Nat) :
    ∀ (n base : Nat) (z : Zone), o + n ≤ BUDDY_MAX_ORDER →
      (∀ j, o ≤ j → j ≤ o + n → z.freeArea j = []) →
      ∀ w, w = ((ladder PAGE_SIZE o n base).map (chunkBlock i flags)).foldl baseFree z →
      (∀ j, j < o ∨ o + n < j → w.freeArea j = z.freeArea j)
        ∧ (∀ j, o < j → j ≤ o + n → w.freeArea j ≠ [])
        ∧ ∃ c, w.freeArea o = [c] ∧ base ≤ c.base ∧ (0 < n → base < c.base) := by
  intro n
  induction n with
  | zero =>
    intro base z hmax hnil w hw
    have hfree : w = z.setArea o [chunkBlock i flags ⟨base, o⟩] := by
      rw [hw]
      exact baseFree_of_nil (b := chunkBlock i flags ⟨base, o⟩) hmax
        (hnil o (Nat.le_refl _) (Nat.le_refl _))
    rw [hfree]
    refine ⟨fun j hj => z.setArea_other (by omega) _, fun j h1 h2 => by omega, ?_⟩
    exact ⟨_, z.setArea_self o _, Nat.le_refl _, fun h => absurd h (by omega)⟩
  | succ n ih =>
    intro base z hmax hnil w hw
    have hfirst : z.baseFree (chunkBlock i flags ⟨base, o + (n + 1)⟩)
        = z.setArea (o + (n + 1)) [chunkBlock i flags ⟨base, o + (n + 1)⟩] :=
      baseFree_of_nil (b := chunkBlock i flags ⟨base, o + (n + 1)⟩) hmax
        (hnil (o + (n + 1)) (by omega) (Nat.le_refl _))
    -- the largest piece lands in its own list; the others find theirs empty
    obtain ⟨hother, hladder, c, hc, hcb, -⟩ := ih (base + chunkSize PAGE_SIZE (o + (n + 1)))
      (z.setArea (o + (n + 1)) [chunkBlock i flags ⟨base, o + (n + 1)⟩]) (by omega)
      (fun j h1 h2 => by rw [z.setArea_other (by omega)]; exact hnil j h1 (by omega)) w
      (by rw [hw, ladder, map_cons, foldl_cons, hfirst])
    have hsize : 0 < chunkSize PAGE_SIZE (o + (n + 1)) := chunkSize_pos (by decide) _
    refine ⟨fun j hj => ?_, fun j h1 h2 => ?_, c, hc, by omega, fun _ => by omega⟩
    · rw [hother j (by omega), z.setArea_other (by omega)]
    · by_cases hj : j = o + (n + 1)
      · rw [hother j (by omega), hj, z.setArea_self]
        simp
      · exact hladder j h1 (by omega)

/-! ## §3. An allocation freed at once. -/

/-- A split by one order: the head joins the one piece again and the block
returns to its list. -/
theorem baseFree_half (hz : z.Wf i) (hco : z.Coalesced)
    (hsorted : (z.freeArea b.order).Pairwise (fun a b => a.base < b.base))
    (hlist : z.freeArea b.order = b :: rest) (hr : b.order = order + 1)
    (hnil : z.freeArea order = []) (hw : w.freeArea =
      ((z.setArea b.order rest).setArea order [chunkBlock i b.flags
        ⟨b.base + getPblkSize order, order⟩]).freeArea) :
    (w.baseFree { b with order := order, len := getPblkSize order }).freeArea = z.freeArea := by
  obtain ⟨hb, -, -⟩ := hz.block b.order b (by rw [hlist]; exact mem_cons_self)
  have hmax := hb.order_le
  have hne : b.order ≠ order := by omega
  have hsize : 0 < getPblkSize order := Nat.mul_pos (by decide) (Nat.two_pow_pos _)
  have hdouble : getPblkSize order + getPblkSize order = b.len := by
    rw [hb.len_eq, hr]
    unfold getPblkSize
    rw [Nat.pow_succ, ← Nat.mul_assoc, Nat.mul_two]
  have hpiece : w.freeArea order
      = [chunkBlock i b.flags ⟨b.base + getPblkSize order, order⟩] := by
    rw [hw, setArea_self]
  have hm : merge (lowerPart b.base (w.freeArea order))
      { b with order := order, len := getPblkSize order } (upperPart b.base (w.freeArea order))
        = some ([], b) := by
    rw [hpiece]
    unfold lowerPart upperPart
    rw [takeWhile_cons_of_neg (by simp [chunkBlock, hsize.ne']),
      dropWhile_cons_of_neg (by simp [chunkBlock, hsize.ne'])]
    unfold merge
    rw [if_neg (by simp only; omega)]
    simp only [chunkBlock, if_true, append_nil, Option.some.injEq, Prod.mk.injEq, true_and]
    rw [hdouble, ← hr]
  rw [baseFree_of_merge hm (by simp only; omega) (by simp only; omega)]
  rw [baseFree_head hz hco hsorted hlist (by
    rw [setArea_other _ hne, hw, setArea_other _ hne, setArea_self])]
  funext j
  by_cases hj : j = b.order
  · rw [hj, setArea_self, hlist]
  rw [setArea_other _ hj]
  by_cases hjo : j = order
  · subst hjo
    rw [setArea_self, hnil]
  · rw [setArea_other _ hjo, hw, setArea_other _ hjo, setArea_other _ hj]

/-- The zone after `alloc(order)` returned a block and the block was freed. -/
theorem roundTrip_cases {news : Nat → Bool} (hz : z.Wf i) (hco : z.Coalesced)
    (hsorted : ∀ k, (z.freeArea k).Pairwise (fun a b => a.base < b.base))
    (halloc : z.alloc i order news = (z', some b')) :
    ((z'.free b').freeArea = z.freeArea ∧ (z.freeArea order ≠ [] ∨ z.freeArea (order + 1) ≠ []))
    ∨ ∃ b rest, z.findOrder order = some b.order ∧ order + 1 < b.order
        ∧ z.freeArea b.order = b :: rest ∧ (z'.free b').freeArea b.order = rest
        ∧ (∀ j, order ≤ j → j < b.order → (z'.free b').freeArea j ≠ [])
        ∧ ∀ j, j < order ∨ b.order < j → (z'.free b').freeArea j = z.freeArea j := by
  rcases alloc_cases hz order news with ⟨-, h⟩ | ⟨b, rest, -, hlist, h⟩
    | ⟨b, rest, hfind, hlt, hlist, h⟩ | ⟨b, rest, -, hlt, hlist, h⟩
  · rw [halloc] at h
    exact absurd (Prod.mk.inj h).2 (by simp)
  · -- the block has the order asked for
    rw [halloc] at h
    obtain ⟨rfl, hb'⟩ := Prod.mk.inj h
    cases hb'
    obtain ⟨-, -, hbk, -, -⟩ := takeHead_spec hz hlist
    subst hbk
    refine .inl ⟨?_, .inl (by rw [hlist]; simp)⟩
    rw [free_freeArea, baseFree_head hz hco (hsorted _) hlist (by simp)]
    funext j
    by_cases hj : j = b'.order
    · rw [hj, setArea_self, hlist]
    · rw [setArea_other _ hj, take_freeArea, setArea_other _ hj]
  · rw [halloc] at h
    obtain ⟨rfl, hb'⟩ := Prod.mk.inj h
    cases hb'
    obtain ⟨-, hmax, -, hbelow⟩ := findOrder_spec hfind
    obtain ⟨n, hn⟩ : ∃ n, b.order = order + n + 1 := ⟨b.order - order - 1, by omega⟩
    have hcarve := carve_ladder (show 0 < PAGE_SIZE by decide) order n BUDDY_MAX_ORDER
      (b.base + getPblkSize order) (by omega)
    rw [← hn] at hcarve
    rw [free_freeArea, splitPieces, hcarve]
    cases n with
    | zero =>
      have hnil := hbelow order (Nat.le_refl _) hlt
      refine .inl ⟨?_, .inr ?_⟩
      · apply baseFree_half hz hco (hsorted _) hlist hn hnil
        rw [take_freeArea]
        show ((z.setArea b.order rest).baseFree
          (chunkBlock i b.flags ⟨b.base + getPblkSize order, order⟩)).freeArea = _
        rw [baseFree_of_nil (b := chunkBlock i b.flags ⟨b.base + getPblkSize order, order⟩)
          (Nat.le_trans (Nat.le_of_lt hlt) hmax)
          (by rw [show (chunkBlock i b.flags ⟨b.base + getPblkSize order, order⟩).order = order
                from rfl, setArea_other _ (by omega)]; exact hnil)]
        rfl
      · rw [show order + 1 = b.order by omega, hlist]
        simp
    | succ n =>
      obtain ⟨hother, hladder, c, hc, hcb, hlast⟩ := foldl_ladder i b.flags order (n + 1)
        (b.base + getPblkSize order) (z.setArea b.order rest) (by omega)
        (fun j h1 h2 => by rw [setArea_other _ (by omega)]; exact hbelow j h1 (by omega))
        _ rfl
      have hgap := hlast (by omega)
      refine .inr ⟨b, rest, hfind, by omega, hlist, ?_⟩
      -- the head finds one piece of its order, further up
      rw [baseFree_below (b := { b with order := order, len := getPblkSize order })
        (Nat.le_trans (Nat.le_of_lt hlt) hmax)
        (by
          intro d hd
          rw [show d = c from mem_singleton.mp (hc ▸ hd)]
          exact Nat.lt_of_le_of_lt (Nat.le_add_right _ _) hgap)
        (by
          rw [take_freeArea]
          intro _ d hd
          rw [show d = c by rw [hc] at hd; exact (Option.some.inj hd).symm]
          exact Nat.ne_of_lt hgap)]
      refine ⟨?_, fun j h1 h2 => ?_, fun j hj => ?_⟩
      · rw [setArea_other _ (by simp only; omega), take_freeArea, hother _ (by omega), setArea_self]
      · by_cases hj : j = order
        · subst hj
          simp
        · rw [setArea_other _ hj, take_freeArea]
          exact hladder j (by omega) (by omega)
      · rw [setArea_other _ (by simp only; omega), take_freeArea,
          hother _ (by omega), setArea_other _ (by omega)]
  · rw [halloc] at h
    exact absurd (Prod.mk.inj h).2 (by simp)

/-! ## §4. Which orders stay available. -/

/-- Some free block has order at least `k`. -/
def Zone.CanSatisfy (z : Zone) (k : Nat) : Prop :=
  ∃ j, k ≤ j ∧ j ≤ BUDDY_MAX_ORDER ∧ z.freeArea j ≠ []

/-- The free blocks of order at least `k`. -/
def Zone.blocksFrom (z : Zone) (k : Nat) : List PageBlock :=
  (List.range' k (BUDDY_MAX_ORDER + 1 - k)).flatMap z.freeArea

/-- Freeing undoes an allocation of this order: a block of the order or of the
next one is free, or there are two blocks to choose from. -/
def Zone.FreeUndoesAlloc (z : Zone) (order : Nat) : Prop :=
  z.freeArea order ≠ [] ∨ z.freeArea (order + 1) ≠ [] ∨ 2 ≤ (z.blocksFrom order).length

theorem Zone.mem_blocksFrom :
    b ∈ z.blocksFrom k ↔ ∃ j, k ≤ j ∧ j ≤ BUDDY_MAX_ORDER ∧ b ∈ z.freeArea j := by
  unfold blocksFrom
  rw [mem_flatMap]
  constructor
  · rintro ⟨j, hj, hb⟩
    rw [mem_range'_1] at hj
    exact ⟨j, by omega, by omega, hb⟩
  · rintro ⟨j, h1, h2, hb⟩
    exact ⟨j, mem_range'_1.mpr (by omega), hb⟩

/-- The blocks from `k` on, when the lists below `r` are empty. -/
theorem Zone.blocksFrom_eq {r : Nat} (hkr : k ≤ r) (hr : r ≤ BUDDY_MAX_ORDER)
    (hnil : ∀ j, k ≤ j → j < r → z.freeArea j = []) :
    z.blocksFrom k = z.freeArea r ++ z.blocksFrom (r + 1) := by
  have hsplit : List.range' k (BUDDY_MAX_ORDER + 1 - k)
      = List.range' k (r - k) ++ r :: List.range' (r + 1) (BUDDY_MAX_ORDER + 1 - (r + 1)) := by
    rw [show BUDDY_MAX_ORDER + 1 - k = (r - k) + (BUDDY_MAX_ORDER - r + 1) by omega,
      ← List.range'_append_1, show k + (r - k) = r by omega, List.range'_succ]
    rw [show BUDDY_MAX_ORDER + 1 - (r + 1) = BUDDY_MAX_ORDER - r by omega]
  have hfront : (List.range' k (r - k)).flatMap z.freeArea = [] := by
    rw [flatMap_eq_nil_iff]
    intro j hj
    rw [mem_range'_1] at hj
    exact hnil j hj.1 (by omega)
  unfold blocksFrom
  rw [hsplit, flatMap_append, hfront, flatMap_cons, nil_append]

theorem Zone.blocksFrom_ne_nil : z.blocksFrom k ≠ [] ↔ z.CanSatisfy k := by
  constructor
  · intro h
    obtain ⟨b, hb⟩ := exists_mem_of_ne_nil _ h
    obtain ⟨j, h1, h2, hbj⟩ := mem_blocksFrom.mp hb
    exact ⟨j, h1, h2, ne_nil_of_mem hbj⟩
  · rintro ⟨j, h1, h2, hne⟩
    obtain ⟨b, hb⟩ := exists_mem_of_ne_nil _ hne
    exact ne_nil_of_mem (mem_blocksFrom.mpr ⟨j, h1, h2, hb⟩)

/-- An allocation and a free at once keep every order available exactly when
the condition held before. -/
theorem roundTrip_iff {news : Nat → Bool} (hz : z.Wf i) (hco : z.Coalesced)
    (hsorted : ∀ k, (z.freeArea k).Pairwise (fun a b => a.base < b.base))
    (halloc : z.alloc i order news = (z', some b')) :
    (∀ k, (z'.free b').CanSatisfy k ↔ z.CanSatisfy k) ↔ z.FreeUndoesAlloc order := by
  rcases roundTrip_cases hz hco hsorted halloc with ⟨hsame, hcond⟩
    | ⟨b, rest, hfind, hgap, hlist, hrest, hladder, hother⟩
  · -- the lists are restored, and the condition holds
    refine ⟨fun _ => ?_, fun _ k => by unfold CanSatisfy; rw [hsame]⟩
    rcases hcond with h | h
    · exact .inl h
    · exact .inr (.inl h)
  · obtain ⟨hle, hmax, hne, hbelow⟩ := findOrder_spec hfind
    have hlen : (z.blocksFrom order).length
        = 1 + rest.length + (z.blocksFrom (b.order + 1)).length := by
      rw [blocksFrom_eq hle hmax hbelow, hlist, length_append, length_cons]
      omega
    -- what is left from the block's own order on
    have hleft : (z'.free b').CanSatisfy b.order ↔ rest ≠ [] ∨ z.CanSatisfy (b.order + 1) := by
      constructor
      · rintro ⟨j, h1, h2, h3⟩
        by_cases hj : j = b.order
        · rw [hj, hrest] at h3
          exact .inl h3
        · rw [hother j (by omega)] at h3
          exact .inr ⟨j, by omega, h2, h3⟩
      · rintro (h | ⟨j, h1, h2, h3⟩)
        · exact ⟨b.order, Nat.le_refl _, hmax, by rw [hrest]; exact h⟩
        · exact ⟨j, by omega, h2, by rw [hother j (by omega)]; exact h3⟩
    have hcond : z.FreeUndoesAlloc order ↔ rest ≠ [] ∨ z.CanSatisfy (b.order + 1) := by
      have hempty : ¬ (z.freeArea order ≠ []) ∧ ¬ (z.freeArea (order + 1) ≠ []) :=
        ⟨not_not_intro (hbelow order (Nat.le_refl _) (by omega)),
          not_not_intro (hbelow (order + 1) (by omega) hgap)⟩
      unfold FreeUndoesAlloc
      rw [or_iff_right hempty.1, or_iff_right hempty.2, hlen, ← blocksFrom_ne_nil,
        ← length_pos_iff, ← length_pos_iff]
      omega
    rw [hcond, ← hleft]
    constructor
    · intro h
      exact (h b.order).mpr ⟨b.order, Nat.le_refl _, hmax, hne⟩
    · intro h k
      by_cases hk : k ≤ b.order
      · -- both sides can satisfy `k`
        obtain ⟨j, h1, h2, h3⟩ := h
        exact ⟨fun _ => ⟨b.order, hk, hmax, hne⟩, fun _ => ⟨j, by omega, h2, h3⟩⟩
      constructor
      · rintro ⟨j, h1, h2, h3⟩
        exact ⟨j, h1, h2, by rw [← hother j (by omega)]; exact h3⟩
      · rintro ⟨j, h1, h2, h3⟩
        exact ⟨j, h1, h2, by rw [hother j (by omega)]; exact h3⟩

/-! ## §5. Every reachable zone. -/

/-- **When freeing undoes an allocation.**  In every zone reachable from the
free lists of a memory map, freeing what `Zone::alloc(order)` just returned
keeps every order available exactly when a block of `order` or `order + 1` was
free, or two blocks of `order` or more. -/
theorem free_undoes_alloc_iff {kernelSize : Nat} {ranges : List (Nat × Nat)} {boot : BootState}
    (hranges : DisjointRanges ranges)
    (hboot : consumeRanges kernelSize ranges init = some boot) (ops : List Op)
    (i : ZoneId) (order : Nat) (news : Nat → Bool) {z' : Zone} {b' : PageBlock}
    (halloc : ((run boot.state ops).zone i).alloc i order news = (z', some b')) :
    (∀ k, (z'.free b').CanSatisfy k ↔ ((run boot.state ops).zone i).CanSatisfy k)
      ↔ ((run boot.state ops).zone i).FreeUndoesAlloc order := by
  obtain ⟨P, hnd, hinv⟩ := consumeRanges_inv hranges hboot
  have hrun := run_inv hinv ops
  have hsafe : Safe boot.state (run boot.state ops) := safe_of_inv hnd hinv hrun
  exact roundTrip_iff (hrun.zones i) (hrun.coalesced hnd i) (hsafe.sorted i) halloc

instance (z : Zone) (k : Nat) : Decidable (z.CanSatisfy k) :=
  decidable_of_iff _ blocksFrom_ne_nil

/-- The free lists of one range of four pages: one block of order 2. -/
def fourPages : BootState :=
  (insertRange .dma init (PAGE_SIZE * 512) (PAGE_SIZE * 4)).getD init

theorem consumeRanges_fourPages :
    consumeRanges 0x1000 [(PAGE_SIZE * 512, PAGE_SIZE * 4)] init = some fourPages := by
  show (handleArds 0x1000 init (PAGE_SIZE * 512) (PAGE_SIZE * 4)).bind some = _
  rw [handleArds_uncut _ _ (by omega) (by omega) (.inl (by omega))]
  rfl

/-- The zone after two pages of the block of four were allocated. -/
theorem free_undoes_alloc_fourPages :
    (∀ k, (((fourPages.state.zone .dma).alloc .dma 1 (fun _ => true)).1.free
          ⟨.dma, PAGE_SIZE * 512, PAGE_SIZE * 2, 0, 1⟩).CanSatisfy k
        ↔ (fourPages.state.zone .dma).CanSatisfy k)
      ↔ (fourPages.state.zone .dma).FreeUndoesAlloc 1 :=
  free_undoes_alloc_iff ⟨by decide, pairwise_singleton _ _⟩ consumeRanges_fourPages []
    .dma 1 (fun _ => true) (Prod.ext rfl rfl)

/-- One page of the block of four, allocated and freed: the block is gone. -/
theorem alloc_free_fragments_fourPages :
    consumeRanges 0x1000 [(PAGE_SIZE * 512, PAGE_SIZE * 4)] init = some fourPages
      ∧ ((fourPages.state.zone .dma).alloc .dma 0 (fun _ => true)).2
          = some ⟨.dma, PAGE_SIZE * 512, PAGE_SIZE, 0, 0⟩ ∧ (fourPages.state.zone .dma).CanSatisfy 2
      ∧ ¬ (((fourPages.state.zone .dma).alloc .dma 0 (fun _ => true)).1.free
          ⟨.dma, PAGE_SIZE * 512, PAGE_SIZE, 0, 0⟩).CanSatisfy 2 :=
  ⟨consumeRanges_fourPages, by decide, by decide, by decide⟩

end BigOS.Mm.Buddy
