/-
  BigOS.Lib.Slots — how many of the first `n` slots are occupied.

  A row of slots is a predicate on indices.  The lemmas say how the number of
  occupied slots moves when one slot is filled or vacated, and what the two
  extreme values mean.  Where occupied slots carry different keys from a list that
  is shorter than the row, one slot is vacant.
-/
import Mathlib.Data.Finset.Card
import Mathlib.Data.List.Range

namespace BigOS.Lib.Slots

open List

variable {n i : Nat} {p q : Nat → Bool}

/-- The number of occupied slots among the first `n`. -/
def occupied (n : Nat) (p : Nat → Bool) : Nat := (range n).countP p

theorem occupied_succ (n : Nat) (p : Nat → Bool) :
    occupied (n + 1) p = occupied n p + if p n then 1 else 0 := by
  unfold occupied
  rw [range_succ, countP_append, countP_singleton]

theorem occupied_congr (h : ∀ i < n, p i = q i) : occupied n p = occupied n q := by
  unfold occupied
  apply countP_congr
  intro i hi
  rw [h i (mem_range.mp hi)]

theorem occupied_le (n : Nat) (p : Nat → Bool) : occupied n p ≤ n := by
  have h : (range n).countP p ≤ (range n).length := countP_le_length
  rwa [length_range] at h

/-- Filling an empty slot adds one. -/
theorem occupied_fill (hi : i < n) (hp : p i = false) (hq : q i)
    (hother : ∀ j < n, j ≠ i → q j = p j) : occupied n q = occupied n p + 1 := by
  induction n with
  | zero => exact absurd hi (Nat.not_lt_zero _)
  | succ n ih =>
    rw [occupied_succ, occupied_succ]
    by_cases hin : i = n
    · subst hin
      have hsame : occupied i q = occupied i p :=
        occupied_congr (fun j hj => hother j (by omega) (by omega))
      rw [hsame, hq, hp]
      rfl
    · rw [ih (by omega) (fun j hj hji => hother j (by omega) hji), hother n (by omega) (by omega)]
      omega

/-- Vacating an occupied slot removes one. -/
theorem occupied_vacate (hi : i < n) (hp : p i) (hq : q i = false)
    (hother : ∀ j < n, j ≠ i → q j = p j) : occupied n q + 1 = occupied n p :=
  (occupied_fill hi hq hp (fun j hj hji => (hother j hj hji).symm)).symm

theorem occupied_eq_zero : occupied n p = 0 ↔ ∀ i < n, p i = false := by
  unfold occupied
  rw [countP_eq_zero]
  constructor
  · intro h i hi
    simpa using h i (mem_range.mpr hi)
  · intro h i hi
    simpa using h i (mem_range.mp hi)

theorem occupied_eq_full : occupied n p = n ↔ ∀ i < n, p i := by
  unfold occupied
  constructor
  · intro h i hi
    have hlen : (range n).countP p = (range n).length := by rw [h, length_range]
    exact countP_eq_length.mp hlen i (mem_range.mpr hi)
  · intro h
    rw [countP_eq_length.mpr (fun i hi => h i (mem_range.mp hi)), length_range]

theorem occupied_pos (hi : i < n) (hp : p i) : 0 < occupied n p := by
  rcases Nat.eq_zero_or_pos (occupied n p) with h | h
  · rw [occupied_eq_zero] at h
    rw [h i hi] at hp
    cases hp
  · exact h

/-- A search over the first `n` slots finds the only one there is to find. -/
theorem find_unique (hi : i < n) (hp : p i) (honly : ∀ j < n, p j → j = i) :
    (range n).find? p = some i := by
  cases hfind : (range n).find? p with
  | none =>
    have hnone := find?_eq_none.mp hfind i (mem_range.mpr hi)
    exact absurd hp hnone
  | some j =>
    have hj : j < n := mem_range.mp (mem_of_find?_eq_some hfind)
    rw [honly j hj (find?_some hfind)]

/-- The keys of the occupied slots differ and come from a list with fewer entries
than there are slots. -/
theorem exists_vacant {α : Type*} [DecidableEq α] {p : Nat → Prop} (key : Nat → α) (keys : List α)
    (hmem : ∀ i < n, p i → key i ∈ keys)
    (hinj : ∀ i < n, ∀ j < n, p i → p j → key i = key j → i = j) (hlen : keys.length < n) :
    ∃ i < n, ¬p i := by
  by_contra hfull
  have hall : ∀ i < n, p i := fun i hi => by_contra fun hp => hfull ⟨i, hi, hp⟩
  have hcard : keys.toFinset.card < (Finset.range n).card := by
    rw [Finset.card_range]
    exact lt_of_le_of_lt (toFinset_card_le keys) hlen
  -- Two slots share a key.
  obtain ⟨i, hi, j, hj, hne, heq⟩ :=
    Finset.exists_ne_map_eq_of_card_lt_of_maps_to hcard (f := key) (fun i hi =>
      mem_toFinset.mpr (hmem i (Finset.mem_range.mp hi) (hall i (Finset.mem_range.mp hi))))
  have hi := Finset.mem_range.mp hi
  have hj := Finset.mem_range.mp hj
  exact hne (hinj i hi j hj (hall i hi) (hall j hj) heq)

end BigOS.Lib.Slots
