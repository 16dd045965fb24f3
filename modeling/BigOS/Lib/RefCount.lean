/-
  BigOS.Lib.RefCount — reference counts that leave a lone owner out.

  Owners are an index type; each owns one thing or nothing.  The count that is stored
  for a thing is the number of its owners, with zero for a lone owner, so that a thing
  that is never shared costs nothing to keep.  A thing is allocated while it has an
  owner, and the last owner to go frees it.

  Main results:
    • `count_fill`, `count_vacate`, `count_extend` — the number of owners when one
      changes, or a family of them,
    • `Exact.claim`, `Exact.share`, `Exact.drop` — what keeps the counts exact,
    • `Exact.lone` — a count of zero means one owner at most,
    • `lost_claim`, `lost_share`, `Exact.lost_drop` — what is allocated without an owner
      stays what it was.
-/
import Mathlib.Data.Set.Card

namespace BigOS.Lib

open Function Option

section

variable {ι β : Type*} [DecidableEq ι] {f : ι → Option β} {i j : ι} {b c : β}

theorem update_some_cases (h : update f i (some b) j = some c) :
    j = i ∧ b = c ∨ j ≠ i ∧ f j = some c := by
  by_cases hji : j = i
  · rw [hji, update_self] at h
    exact .inl ⟨hji, some.inj h⟩
  · rw [update_of_ne hji] at h
    exact .inr ⟨hji, h⟩

theorem update_none_some (h : update f i none j = some c) : j ≠ i ∧ f j = some c := by
  by_cases hji : j = i
  · rw [hji, update_self] at h
    cases h
  · rw [update_of_ne hji] at h
    exact ⟨hji, h⟩

/-- What a new value has in common with the old one stays. -/
theorem map_update_eq {γ : Type*} (g : β → γ) (hi : f i = some b) (hg : g b = g c) (j : ι) :
    (update f i (some c) j).map g = (f j).map g := by
  by_cases hji : j = i
  · rw [hji, update_self, hi, map_some, map_some, hg]
  · rw [update_of_ne hji]

end

namespace RefCount

variable {ι β : Type*} {own : ι → Option β} {i j : ι} {b c : β}

/-! ## §1. Owners. -/

/-- The number of owners of a thing. -/
noncomputable def count (own : ι → Option β) (b : β) : Nat := {i | own i = some b}.ncard

/-- Finitely many own anything. -/
def Finitely (own : ι → Option β) : Prop := {i | own i ≠ none}.Finite

theorem Finitely.owners (h : Finitely own) (b : β) : {i | own i = some b}.Finite := by
  refine h.subset (fun i hi => ?_)
  show own i ≠ none
  rw [show own i = some b from hi]
  exact some_ne_none b

theorem count_pos (h : Finitely own) : 0 < count own b ↔ ∃ i, own i = some b :=
  Set.ncard_pos (h.owners b)

theorem eq_of_count (h : Finitely own) (hone : count own b ≤ 1) (hi : own i = some b)
    (hj : own j = some b) : i = j :=
  (Set.ncard_le_one (h.owners b)).mp hone i hi j hj

/-- A family of owners, none of which owned anything, comes to own what `sub` says. -/
structure Extends {κ : Type*} (own own' : ι → Option β) (g : κ → ι) (sub : κ → Option β) :
    Prop where
  injective : Injective g
  vacant : ∀ x, own (g x) = none
  inside : ∀ x, own' (g x) = sub x
  outside : ∀ i, (∀ x, i ≠ g x) → own' i = own i

section extends_

variable {κ : Type*} {own' : ι → Option β} {g : κ → ι} {sub : κ → Option β} {n : Nat}
  (he : Extends own own' g sub)

include he

theorem Extends.owners (b : β) :
    {i | own' i = some b} = {i | own i = some b} ∪ Set.image g {x | sub x = some b} := by
  ext i
  constructor
  · intro hi
    by_cases hg : ∃ x, i = g x
    · obtain ⟨x, rfl⟩ := hg
      exact .inr ⟨x, (he.inside x).symm.trans hi, rfl⟩
    · have hout := he.outside i (fun x hx => hg ⟨x, hx⟩)
      exact .inl (hout.symm.trans hi)
  · intro hi
    rcases hi with hi | ⟨x, hx, rfl⟩
    · have hne : ∀ x, i ≠ g x := by
        intro x hx
        have hi' : own i = some b := hi
        rw [hx, he.vacant x] at hi'
        cases hi'
      exact (he.outside i hne).trans hi
    · exact (he.inside x).trans hx

theorem Extends.finitely (h : Finitely own) (hsub : Finitely sub) : Finitely own' := by
  refine (h.union (hsub.image g)).subset (fun i hi => ?_)
  have hi' : own' i ≠ none := hi
  obtain ⟨b, hb⟩ := ne_none_iff_exists'.mp hi'
  have hmem : i ∈ {i | own' i = some b} := hb
  rw [he.owners b] at hmem
  rcases hmem with hown | ⟨x, hx, rfl⟩
  · refine .inl ?_
    show own i ≠ none
    rw [show own i = some b from hown]
    exact nofun
  · refine .inr ⟨x, ?_, rfl⟩
    show sub x ≠ none
    rw [show sub x = some b from hx]
    exact nofun

theorem count_extend (h : Finitely own) (hsub : Finitely sub) (b : β) :
    count own' b = count own b + count sub b := by
  unfold count
  rw [he.owners b, Set.ncard_union_eq _ (h.owners b) ((hsub.owners b).image g),
    Set.ncard_image_of_injective _ he.injective]
  rw [Set.disjoint_left]
  intro i hi hg
  obtain ⟨x, _, rfl⟩ := hg
  cases (he.vacant x).symm.trans hi

end extends_

variable [DecidableEq ι]

theorem Finitely.update (h : Finitely own) (i : ι) (o : Option β) : Finitely (update own i o) := by
  refine (h.insert i).subset (fun j hj => ?_)
  by_cases hji : j = i
  · exact .inl hji
  · refine .inr ?_
    have hne : Function.update own i o j ≠ none := hj
    rwa [update_of_ne hji] at hne

/-- The owners of other things. -/
theorem count_update {o : Option β} (hi : own i ≠ some b) (ho : o ≠ some b) :
    count (update own i o) b = count own b := by
  refine congrArg Set.ncard (Set.ext fun j => ?_)
  by_cases hji : j = i
  · subst hji
    simp [hi, ho]
  · simp [hji]

variable [DecidableEq β]

/-- An owner of nothing becomes an owner. -/
theorem count_fill (h : Finitely own) (hi : own i = none) (b c : β) :
    count (update own i (some b)) c = count own c + if c = b then 1 else 0 := by
  by_cases hc : c = b
  · subst hc
    have hset : {j | update own i (some c) j = some c} = insert i {j | own j = some c} := by
      ext j
      by_cases hji : j = i
      · simp [hji]
      · simp [hji]
    rw [if_pos rfl, count, hset, Set.ncard_insert_of_notMem _ (h.owners c)]
    · rfl
    · show ¬own i = some c
      rw [hi]
      exact nofun
  · rw [if_neg hc, count_update (by rw [hi]; nofun) (fun heq => hc (some.inj heq).symm)]
    rfl

/-- An owner gives up what it owns. -/
theorem count_vacate (h : Finitely own) (hi : own i = some b) (c : β) :
    count own c = count (update own i none) c + if c = b then 1 else 0 := by
  have hback : update (update own i none) i (some b) = own := by
    rw [update_idem, ← hi, update_eq_self]
  rw [← count_fill (h.update i none) (update_self ..) b c, hback]

/-- Owners with numbers below a bound, counted along a list. -/
theorem count_range {own : Nat → Option β} (hbound : ∀ i, own i ≠ none → i < n) (b : β) :
    count own b = ((List.range n).filterMap own).count b := by
  have hset : {i | own i = some b} = ↑((Finset.range n).filter (fun i => own i = some b)) := by
    ext i
    simp only [Set.mem_ofPred_eq, Finset.coe_filter, Finset.mem_range]
    exact ⟨fun hi => ⟨hbound i (by rw [hi]; nofun), hi⟩, fun hi => hi.2⟩
  unfold count
  rw [hset, Set.ncard_coe_finset, List.count_filterMap, List.countP_eq_length_filter]
  show ((List.range n).filter (fun i => decide (own i = some b))).length = _
  refine congrArg List.length
    (congrArg (fun p => List.filter p (List.range n)) (funext fun i => ?_))
  rw [beq_eq_decide]

/-! ## §2. Counts. -/

/-- What is stored for a number of owners. -/
def encode (n : Nat) : Nat := if n ≤ 1 then 0 else n

/-- One more owner, where there was one. -/
def inc (n : Nat) : Nat := if n = 0 then 2 else n + 1

/-- One owner less; a lone owner is not counted. -/
def dec (n : Nat) : Nat := if n ≤ 2 then 0 else n - 1

theorem inc_encode (hn : 0 < n) : inc (encode n) = encode (n + 1) := by
  rcases n with _ | _ | n
  · exact absurd hn (Nat.lt_irrefl 0)
  · rfl
  · simp [inc, encode]

theorem dec_encode (n : Nat) : dec (encode (n + 1)) = encode n := by
  rcases n with _ | _ | n
  · rfl
  · rfl
  · simp [dec, encode]

/-- The counts are those of the owners, and what has an owner is allocated. -/
structure Exact (own : ι → Option β) (stored : β → Nat) (allocated : β → Bool) : Prop where
  finite : Finitely own
  stored : ∀ b, stored b = encode (count own b)
  allocated : ∀ i b, own i = some b → allocated b

namespace Exact

variable {stored : β → Nat} {allocated : β → Bool} (h : Exact own stored allocated)

include h

omit [DecidableEq ι] [DecidableEq β] in
/-- A count below two is that of one owner at most. -/
theorem lone (hb : stored b < 2) (hi : own i = some b) (hj : own j = some b) : i = j := by
  refine eq_of_count h.finite ?_ hi hj
  rw [h.stored b] at hb
  unfold encode at hb
  split at hb
  · assumption
  · omega

omit [DecidableEq ι] [DecidableEq β] in
theorem not_owned (hb : allocated b = false) (i : ι) : own i ≠ some b := fun hi =>
  Bool.false_ne_true (hb.symm.trans (h.allocated i b hi))

omit [DecidableEq ι] [DecidableEq β] in
theorem count_of_not_owned (hb : ∀ i, own i ≠ some b) : count own b = 0 := by
  by_contra hne
  obtain ⟨i, hi⟩ := (count_pos h.finite).mp (Nat.pos_of_ne_zero hne)
  exact hb i hi

/-- A thing that was free gets its first owner. -/
theorem claim (hi : own i = none) (hb : ∀ j, own j ≠ some b) (halloc : allocated b) :
    Exact (update own i (some b)) stored allocated where
  finite := h.finite.update i _
  stored c := by
    have hzero := h.count_of_not_owned hb
    rw [count_fill h.finite hi, h.stored c]
    by_cases hc : c = b
    · rw [if_pos hc, hc, hzero]
      rfl
    · rw [if_neg hc, Nat.add_zero]
  allocated j c hj := by
    rcases update_some_cases hj with ⟨_, rfl⟩ | ⟨_, hj⟩
    · exact halloc
    · exact h.allocated j c hj

/-- A thing that has an owner gets another. -/
theorem share (hi : own i = none) (hj : own j = some b) :
    Exact (update own i (some b)) (update stored b (inc (stored b))) allocated where
  finite := h.finite.update i _
  stored c := by
    have hpos : 0 < count own b := (count_pos h.finite).mpr ⟨j, hj⟩
    rw [count_fill h.finite hi]
    by_cases hc : c = b
    · subst hc
      rw [update_self, if_pos rfl, h.stored c, inc_encode hpos]
    · rw [update_of_ne hc, if_neg hc, Nat.add_zero]
      exact h.stored c
  allocated k c hk := by
    rcases update_some_cases hk with ⟨_, rfl⟩ | ⟨_, hk⟩
    · exact h.allocated j b hj
    · exact h.allocated k c hk

/-- An owner gives up what it owns; a lone owner frees it. -/
theorem drop (hi : own i = some b) : Exact (update own i none) (update stored b (dec (stored b)))
      (if stored b = 0 then update allocated b false else allocated) where
  finite := h.finite.update i _
  stored c := by
    have hcount := count_vacate h.finite hi c
    by_cases hc : c = b
    · subst hc
      rw [if_pos rfl] at hcount
      rw [update_self, h.stored c, hcount, dec_encode]
    · rw [if_neg hc, Nat.add_zero] at hcount
      rw [update_of_ne hc, ← hcount]
      exact h.stored c
  allocated k c hk := by
    obtain ⟨hki, hk⟩ := update_none_some hk
    have hc : c = b → stored b ≠ 0 := by
      rintro rfl hzero
      exact hki (h.lone (by omega) hk hi)
    split
    · rename_i hzero
      rw [update_of_ne (fun heq => hc heq hzero)]
      exact h.allocated k c hk
    · exact h.allocated k c hk

omit [DecidableEq ι] in
/-- A thing without an owner is allocated or freed. -/
theorem remark (hb : ∀ i, own i ≠ some b) (v : Bool) : Exact own stored (update allocated b v) where
  finite := h.finite
  stored := h.stored
  allocated i c hi := by
    have hc : c ≠ b := by
      rintro rfl
      exact hb i hi
    rw [update_of_ne hc]
    exact h.allocated i c hi

end Exact

/-! ## §3. Things that are lost. -/

/-- A thing that is allocated and that nobody owns: no owner will ever free it. -/
def Lost (own : ι → Option β) (allocated : β → Bool) (b : β) : Prop :=
  allocated b ∧ ∀ i, own i ≠ some b

section Lost

variable {allocated : β → Bool}

omit [DecidableEq β] in
/-- A new owner changes only whether the thing that it owns is lost. -/
theorem not_owned_fill (hi : own i = none) (hc : c ≠ b) :
    (∀ j, update own i (some b) j ≠ some c) ↔ ∀ j, own j ≠ some c := by
  refine forall_congr' (fun j => ?_)
  by_cases hj : j = i
  · subst hj
    rw [update_self, hi]
    exact ⟨fun _ => nofun, fun _ heq => hc (some.inj heq).symm⟩
  · rw [update_of_ne hj]

theorem lost_claim (hi : own i = none) (hfree : allocated b = false) :
    Lost (update own i (some b)) (update allocated b true) c ↔ Lost own allocated c := by
  unfold Lost
  by_cases hc : c = b
  · subst hc
    constructor
    · intro h
      exact absurd (update_self ..) (h.2 i)
    · intro h
      cases hfree.symm.trans h.1
  · rw [update_of_ne hc, not_owned_fill hi hc]

omit [DecidableEq β] in
theorem lost_share (hi : own i = none) (hj : own j = some b) :
    Lost (update own i (some b)) allocated c ↔ Lost own allocated c := by
  unfold Lost
  by_cases hc : c = b
  · subst hc
    constructor
    · intro h
      exact absurd (update_self ..) (h.2 i)
    · intro h
      exact absurd hj (h.2 j)
  · rw [not_owned_fill hi hc]

theorem Exact.lost_drop {stored : β → Nat} (h : Exact own stored allocated) (hi : own i = some b) :
    Lost (update own i none) (if stored b = 0 then update allocated b false else allocated) c ↔
      Lost own allocated c := by
  have hback : update (update own i none) i (some b) = own := by
    rw [update_idem, ← hi, update_eq_self]
  by_cases hc : c = b
  · subst hc
    constructor
    · intro hlost
      by_cases hzero : stored c = 0
      · rw [if_pos hzero] at hlost
        cases (update_self ..).symm.trans hlost.1
      -- Another owner is left.
      have hcount := count_vacate h.finite hi c
      have hstored := h.stored c
      unfold encode at hstored
      split at hstored
      · exact absurd hstored hzero
      · rw [if_pos rfl] at hcount
        obtain ⟨j, hj⟩ := (count_pos (h.finite.update i none)).mp
          (show 0 < count (update own i none) c by omega)
        exact absurd hj (hlost.2 j)
    · intro hlost
      exact absurd hi (hlost.2 i)
  · have hnone : update own i none i = none := update_self ..
    have hown := not_owned_fill hnone hc
    rw [hback] at hown
    unfold Lost
    rw [hown]
    split
    · rw [update_of_ne hc]
    · rfl

end Lost

end RefCount

end BigOS.Lib
