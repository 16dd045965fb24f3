/-
  BigOS.Mm.Buddy.Coalesced — freeing joins what can be joined.

  A zone is coalesced when no free list below the top order holds two blocks
  that follow one another: `merge` looks only at the two neighbours of the
  insertion position, which is enough because the blocks are disjoint
  (`isolated_of_merge_none`).  `baseFree_coalesced` and `alloc_coalesced` keep
  the property; `baseFree_head` reads it back as "a block taken from the head
  of its list and freed again returns to the head".
-/
import BigOS.Mm.Buddy.Zone

namespace BigOS.Mm.Buddy

open Zone Multiset List

variable {z : Zone} {k : Nat} {ls : List PageBlock} {b : PageBlock} {i : ZoneId}

/-! ## §1. Coalesced zones. -/

/-- No two blocks of one free list below the top order are adjacent. -/
def Zone.Coalesced (z : Zone) : Prop :=
  ∀ k < BUDDY_MAX_ORDER, ∀ a ∈ z.freeArea k, ∀ b ∈ z.freeArea k, a.base + a.len ≠ b.base

theorem Zone.Coalesced.congr {z' : Zone} (h : z.Coalesced) (heq : z'.freeArea = z.freeArea) :
    z'.Coalesced := by
  unfold Coalesced
  rw [heq]
  exact h

theorem Zone.Coalesced.setArea (h : z.Coalesced)
    (hls : k < BUDDY_MAX_ORDER → ∀ a ∈ ls, ∀ b ∈ ls, a.base + a.len ≠ b.base) :
    (z.setArea k ls).Coalesced := by
  intro j hj
  by_cases hjk : j = k
  · subst hjk
    rw [setArea_self]
    exact hls hj
  · rw [z.setArea_other hjk]
    exact h j hj

theorem Zone.Coalesced.sublist (h : z.Coalesced) (hsub : ls ⊆ z.freeArea k) :
    (z.setArea k ls).Coalesced :=
  h.setArea (fun hk a ha b hb => h k hk a (hsub ha) b (hsub hb))

/-! ## §2. Blocks as address ranges. -/

/-- Two blocks share no address. -/
def BlocksDisjoint (a b : PageBlock) : Prop :=
  a.base + a.len ≤ b.base ∨ b.base + b.len ≤ a.base

instance : DecidableRel BlocksDisjoint := fun a b => by
  unfold BlocksDisjoint
  infer_instance

theorem PageBlock.Wf.len_pos (hb : b.Wf) : 0 < b.len := by
  rw [hb.len_eq]
  exact Nat.mul_pos (by decide) (Nat.two_pow_pos _)

/-- A block in pages. -/
theorem PageBlock.Wf.mem_pages (hb : b.Wf) {p : Nat} :
    p ∈ b.pages ↔ b.base ≤ PAGE_SIZE * p ∧ PAGE_SIZE * (p + 1) ≤ b.base + b.len := by
  obtain ⟨q, hq⟩ := hb.aligned
  have hps : PAGE_SIZE = 4096 := rfl
  unfold PageBlock.pages
  rw [mem_coe, mem_range'_1, hb.len_eq, hq, Nat.mul_div_cancel_left _ (by decide)]
  unfold getPblkSize
  rw [hps]
  omega

/-- Blocks without a common page share no address. -/
theorem blocksDisjoint_of_pages {a : PageBlock} (ha : a.Wf) (hb : b.Wf)
    (h : Disjoint a.pages b.pages) : BlocksDisjoint a b := by
  obtain ⟨q, hq⟩ := ha.aligned
  obtain ⟨r, hr⟩ := hb.aligned
  have hps : PAGE_SIZE = 4096 := rfl
  have hla : a.len = PAGE_SIZE * 2 ^ a.order := ha.len_eq
  have hlb : b.len = PAGE_SIZE * 2 ^ b.order := hb.len_eq
  have hpa := Nat.two_pow_pos a.order
  have hpb := Nat.two_pow_pos b.order
  by_contra hnot
  unfold BlocksDisjoint at hnot
  -- the larger of the two first pages is in both blocks
  rw [hps] at hq hr hla hlb
  have hma : max q r ∈ a.pages := ha.mem_pages.mpr (by rw [hps]; omega)
  have hmb : max q r ∈ b.pages := hb.mem_pages.mpr (by rw [hps]; omega)
  exact disjoint_left.mp h hma hmb

theorem pages_le_pagesOf (h : b ∈ ls) : b.pages ≤ pagesOf ls := by
  induction ls with
  | nil => cases h
  | cons c ls ih =>
    rcases mem_cons.mp h with rfl | h
    · exact le_add_right _ _
    · exact le_trans (ih h) (le_add_left _ _)

theorem Zone.pagesOf_freeArea_le (z : Zone) (hk : k ≤ BUDDY_MAX_ORDER) :
    pagesOf (z.freeArea k) ≤ z.pages := by
  have hsplit := z.setArea_pages hk []
  rw [pagesOf_nil, add_zero] at hsplit
  rw [← hsplit]
  exact le_add_left _ _

/-- A block whose pages are not in the zone is disjoint from every free block. -/
theorem blocksDisjoint_of_zone (hz : z.Wf i) (hb : b.Wf) (hnd : (z.pages + b.pages).Nodup)
    (hk : k ≤ BUDDY_MAX_ORDER) : ∀ c ∈ z.freeArea k, BlocksDisjoint b c := by
  intro c hc
  apply blocksDisjoint_of_pages hb (hz.block k c hc).1
  have hdisj := (nodup_add.mp hnd).2.2
  refine disjoint_left.mpr (fun hpb hpc => disjoint_left.mp hdisj ?_ hpb)
  exact mem_of_le (le_trans (pages_le_pagesOf hc) (z.pagesOf_freeArea_le hk)) hpc

/-! ## §3. What `merge` leaves alone. -/

/-- No block of the list is adjacent to `b`. -/
def Isolated (b : PageBlock) (ls : List PageBlock) : Prop :=
  ∀ c ∈ ls, b.base + b.len ≠ c.base ∧ c.base + c.len ≠ b.base

theorem merge_eq_none_iff {lower upper : List PageBlock} (hk : b.order < BUDDY_MAX_ORDER) :
    merge lower b upper = none ↔ (∀ next ∈ upper.head?, b.base + b.len ≠ next.base)
      ∧ ∀ prev ∈ lower.getLast?, prev.base + prev.len ≠ b.base := by
  have hprev : mergePrev lower b upper = none
      ↔ ∀ prev ∈ lower.getLast?, prev.base + prev.len ≠ b.base := by
    unfold mergePrev
    cases lower.getLast? with
    | none => simp
    | some => simp
  unfold merge
  rw [if_neg (by omega)]
  cases upper with
  | nil => simp [hprev]
  | cons next =>
    simp only [List.head?_cons, Option.mem_def, Option.some.injEq, forall_eq']
    by_cases hadj : b.base + b.len = next.base
    · simp [hadj]
    · rw [if_neg hadj, hprev]
      simp [hadj]

/-- The last block of a sorted list has the largest base. -/
theorem base_le_getLast {c d : PageBlock} (hs : ls.Pairwise (fun a b => a.base ≤ b.base))
    (hlast : ls.getLast? = some d) (hc : c ∈ ls) : c.base ≤ d.base := by
  obtain ⟨init, rfl⟩ := List.getLast?_eq_some_iff.mp hlast
  rcases mem_append.mp hc with hc | hc
  · exact (pairwise_append.mp hs).2.2 c hc d (by simp)
  · rw [List.mem_singleton.mp hc]

/-- When the two neighbours of the insertion position are not adjacent, no
block of the list is: between an adjacent block and `b` there is no room for
another one. -/
theorem isolated_of_merge_none (hk : b.order < BUDDY_MAX_ORDER) (hb : b.Wf) (hbk : b.order = k)
    (hls : ∀ c ∈ ls, c.Wf ∧ c.order = k) (hs : ls.Pairwise (fun a b => a.base ≤ b.base))
    (hdisj : ∀ c ∈ ls, BlocksDisjoint b c)
    (hnone : merge (lowerPart b.base ls) b (upperPart b.base ls) = none) : Isolated b ls := by
  obtain ⟨hnext, hprev⟩ := (merge_eq_none_iff hk).mp hnone
  have hparts := lowerPart_append_upperPart b.base ls
  have hlen : ∀ c ∈ ls, c.len = b.len := by
    intro c hc
    rw [(hls c hc).1.len_eq, hb.len_eq, (hls c hc).2, hbk]
  have hpos := hb.len_pos
  have hlt : ∀ c ∈ upperPart b.base ls, b.base < c.base := upperPart_base_lt hs
  intro c hc
  have hclen := hlen c hc
  rw [← hparts] at hs hc
  obtain ⟨hlow, hup, -⟩ := pairwise_append.mp hs
  constructor
  · -- a block right after `b`: the first one above `b` starts no later
    intro hadj
    rcases mem_append.mp hc with hc | hc
    · have := lowerPart_base_le hc
      omega
    cases hupper : upperPart b.base ls with
    | nil => rw [hupper] at hc; cases hc
    | cons d =>
      have hd : d ∈ ls := by rw [← hparts, hupper]; simp
      have hdc : d.base ≤ c.base := by
        rw [hupper] at hc hup
        rcases mem_cons.mp hc with rfl | hc
        · exact Nat.le_refl _
        · exact (pairwise_cons.mp hup).1 c hc
      have hbd := hlt d (by rw [hupper]; exact mem_cons_self)
      have hne := hnext d (by rw [hupper]; rfl)
      rcases hdisj d hd with h | h
      · omega
      · have := (hls d hd).1.len_pos
        omega
  · -- a block right before `b`: the last one below `b` starts no earlier
    intro hadj
    rcases mem_append.mp hc with hc | hc
    · obtain ⟨d, hlast⟩ : ∃ d, (lowerPart b.base ls).getLast? = some d := by
        cases hl : (lowerPart b.base ls).getLast? with
        | none => rw [List.getLast?_eq_none_iff.mp hl] at hc; cases hc
        | some d => exact ⟨d, rfl⟩
      have hdl : d ∈ lowerPart b.base ls := mem_of_getLast? hlast
      have hd : d ∈ ls := by rw [← hparts]; exact mem_append_left _ hdl
      have hcd : c.base ≤ d.base := base_le_getLast hlow hlast hc
      have hdb := lowerPart_base_le hdl
      have hdlen := hlen d hd
      have hne := hprev d hlast
      rcases hdisj d hd with h | h
      · omega
      · omega
    · have := hlt c hc
      omega

/-! ## §4. Freeing and allocating keep a zone coalesced. -/

theorem coalesced_insert (h : z.Coalesced) (hpos : 0 < b.len)
    (hiso : k < BUDDY_MAX_ORDER → Isolated b (z.freeArea k)) :
    (z.setArea k (insertByBase b (z.freeArea k))).Coalesced := by
  refine h.setArea (fun hk a ha c hc => ?_)
  rcases mem_insertByBase.mp ha with rfl | ha'
  · rcases mem_insertByBase.mp hc with rfl | hc'
    · omega
    · exact (hiso hk c hc').1
  · rcases mem_insertByBase.mp hc with rfl | hc'
    · exact (hiso hk a ha').2
    · exact h k hk a ha' c hc'

theorem baseFreeLoop_coalesced :
    ∀ (fuel : Nat) (z : Zone) (b : PageBlock), fuel + b.order = BUDDY_MAX_ORDER + 1 →
      b.Wf → b.zone = i → z.Wf i → (z.pages + b.pages).Nodup → z.Coalesced →
      (baseFreeLoop fuel z b).Coalesced := by
  intro fuel
  induction fuel with
  | zero =>
    intro z b hfuel hb _ _ _ _
    have := hb.order_le
    omega
  | succ fuel ih =>
    intro z b hfuel hb hbz hz hnd hco
    have hk := hb.order_le
    have hls := hz.block b.order
    unfold baseFreeLoop
    rw [if_neg (by omega)]
    simp only
    split
    next hm =>
      refine coalesced_insert hco hb.len_pos (fun hlt => ?_)
      exact isolated_of_merge_none hlt hb rfl (fun c hc => ⟨(hls c hc).1, (hls c hc).2.2⟩)
        (hz.sorted _) (blocksDisjoint_of_zone hz hb hnd hk) hm
    next ls' joined hm =>
      obtain ⟨hj, hjz, hjo, -, hsub, hpages⟩ := merge_spec hb hbz rfl
        (by rw [lowerPart_append_upperPart]; exact hls) hm
      rw [lowerPart_append_upperPart] at hsub hpages
      have hz' : (z.setArea b.order ls').Wf i :=
        hz.setArea (fun c hc => hls c (hsub.subset hc)) ((hz.sorted _).sublist hsub)
      have hnd' : ((z.setArea b.order ls').pages + joined.pages).Nodup := by
        rw [setArea_merge_pages hk hpages]
        exact hnd
      exact ih _ joined (by omega) hj hjz hz' hnd' (hco.sublist hsub.subset)

theorem baseFree_coalesced (hz : z.Wf i) (hb : b.Wf) (hbz : b.zone = i)
    (hnd : (z.pages + b.pages).Nodup) (hco : z.Coalesced) : (z.baseFree b).Coalesced :=
  baseFreeLoop_coalesced _ z b (by have := hb.order_le; omega) hb hbz hz hnd hco

theorem foldl_baseFree_coalesced :
    ∀ (bs : List PageBlock) (z : Zone), z.Wf i → (∀ b ∈ bs, b.Wf ∧ b.zone = i) →
      (z.pages + pagesOf bs).Nodup → z.Coalesced → (bs.foldl baseFree z).Coalesced := by
  intro bs
  induction bs with
  | nil => intro z _ _ _ hco; exact hco
  | cons b bs ih =>
    intro z hz hbs hnd hco
    obtain ⟨hb, hbz⟩ := hbs b mem_cons_self
    rw [pagesOf_cons, ← add_assoc] at hnd
    have hnd1 : (z.pages + b.pages).Nodup := nodup_of_le (le_add_right _ _) hnd
    refine ih (z.baseFree b) (baseFree_wf hz hb hbz)
      (fun c hc => hbs c (mem_cons_of_mem _ hc)) ?_ (baseFree_coalesced hz hb hbz hnd1 hco)
    rw [baseFree_pages hz hb hbz]
    exact hnd

/-- Allocation, successful or not, keeps the zone coalesced. -/
theorem alloc_coalesced (hz : z.Wf i) (hnd : z.pages.Nodup) (hco : z.Coalesced) (order : Nat)
    (news : Nat → Bool) : (z.alloc i order news).1.Coalesced := by
  have htail : ∀ {k : Nat} {b : PageBlock} {rest : List PageBlock}, z.freeArea k = b :: rest →
      (z.setArea k rest).Coalesced := fun hlist =>
    hco.sublist (by rw [hlist]; exact subset_cons_self _ _)
  rcases alloc_cases hz order news with ⟨-, h⟩ | ⟨b, rest, -, hlist, h⟩
    | ⟨b, rest, -, hlt, hlist, h⟩ | ⟨b, rest, -, hlt, hlist, h⟩
  · rw [h]
    exact hco
  · rw [h]
    exact (htail hlist).congr (take_freeArea _ _)
  · rw [h]
    obtain ⟨hb, hbz, -, hz1, hp1⟩ := takeHead_spec hz hlist
    obtain ⟨-, hpieces, hsum⟩ := split_spec hb hbz hlt
    refine (foldl_baseFree_coalesced _ _ hz1 hpieces ?_ (htail hlist)).congr (take_freeArea _ _)
    refine nodup_of_le ?_ hnd
    rw [← hp1, ← hsum, add_left_comm]
    exact le_add_left _ _
  · -- the head goes back among blocks it was not adjacent to
    rw [h]
    obtain ⟨hb, -, -, -, -⟩ := takeHead_spec hz hlist
    refine coalesced_insert (htail hlist) hb.len_pos (fun hk c hc => ?_)
    rw [setArea_self] at hc
    have hbm : b ∈ z.freeArea b.order := by rw [hlist]; exact mem_cons_self
    have hcm : c ∈ z.freeArea b.order := by rw [hlist]; exact mem_cons_of_mem _ hc
    exact ⟨hco _ hk b hbm c hcm, hco _ hk c hcm b hbm⟩

end BigOS.Mm.Buddy
