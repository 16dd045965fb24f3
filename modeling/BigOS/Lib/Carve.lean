/-
  BigOS.Lib.Carve — greedy decomposition of a byte range into power-of-two
  chunks.

  A range `[base, base + len)` is cut from the left, largest chunk first:
  for every order from the top one down to 0, chunks of `unit · 2^order`
  bytes are taken while the rest is long enough.  Nothing here is about a
  particular allocator: `unit` is any positive cell size.

  Main results:
    * `carve_cells` — the cells of the chunks, in order, are exactly the
      cells of the range (`len` a multiple of the unit).
    * `carve_ladder` — a rest of `2^(k+1) − 2^o` cells is cut into one
      chunk of each order `k, k−1, …, o`.
-/
import Mathlib.Data.List.Range
import Mathlib.Data.List.Flatten
import Mathlib.Tactic.Ring
import Mathlib.Tactic.Linarith

namespace BigOS.Lib.Carve

open List

/-! ## §1. Chunks and the two nested loops. -/

/-- One chunk: `unit · 2^order` bytes from `base`. -/
structure Chunk where
  base : Nat
  order : Nat
  deriving Repr, DecidableEq

/-- The bytes of a chunk of the given order. -/
def chunkSize (unit order : Nat) : Nat := unit * 2 ^ order

/-- The cell numbers a chunk covers. -/
def Chunk.cells (unit : Nat) (c : Chunk) : List Nat :=
  List.range' (c.base / unit) (2 ^ c.order)

/-- The inner loop: take chunks of one order while the rest is long enough.
Returns the chunks with the base and the length left; the first argument
bounds the number of rounds. -/
def carveAt (unit order : Nat) : Nat → Nat → Nat → List Chunk × Nat × Nat
  | 0, base, len => ([], base, len)
  | n + 1, base, len =>
    if chunkSize unit order ≤ len then
      let rest := carveAt unit order n (base + chunkSize unit order)
        (len - chunkSize unit order)
      (⟨base, order⟩ :: rest.1, rest.2)
    else ([], base, len)

/-- The rounds the inner loop makes at most on a rest of `len` bytes. -/
def rounds (unit order len : Nat) : Nat := len / chunkSize unit order

/-- The outer loop: orders from `k` down to 0. -/
def carve (unit : Nat) : Nat → Nat → Nat → List Chunk
  | 0, base, len => (carveAt unit 0 (rounds unit 0 len) base len).1
  | k + 1, base, len =>
    let here := carveAt unit (k + 1) (rounds unit (k + 1) len) base len
    here.1 ++ carve unit k here.2.1 here.2.2

theorem chunkSize_pos {unit : Nat} (hu : 0 < unit) (k : Nat) : 0 < chunkSize unit k :=
  Nat.mul_pos hu (Nat.two_pow_pos k)

/-! ## §2. What one order takes off the range. -/

section Coverage

variable {unit : Nat}

/-- The inner loop cuts cells off the left end: the cells of its chunks
followed by the cells left are the cells of the range. -/
theorem carveAt_cells (hu : 0 < unit) (k : Nat) : ∀ (n b c : Nat),
      ∃ m, (carveAt unit k n (unit * b) (unit * c)).2 = (unit * (b + m), unit * (c - m)) ∧ m ≤ c
        ∧ ((carveAt unit k n (unit * b) (unit * c)).1.flatMap (Chunk.cells unit))
            = List.range' b m := by
  intro n
  induction n with
  | zero => intro b c; exact ⟨0, by simp [carveAt], Nat.zero_le c, by simp [carveAt]⟩
  | succ n ih =>
    intro b c
    by_cases h : chunkSize unit k ≤ unit * c
    · have hk : 2 ^ k ≤ c := Nat.le_of_mul_le_mul_left h hu
      have hb : unit * b + chunkSize unit k = unit * (b + 2 ^ k) := by
        unfold chunkSize; ring
      have hc : unit * c - chunkSize unit k = unit * (c - 2 ^ k) := by
        unfold chunkSize; rw [Nat.mul_sub]
      obtain ⟨m, hrest, hm, hcells⟩ := ih (b + 2 ^ k) (c - 2 ^ k)
      refine ⟨2 ^ k + m, ?_, by omega, ?_⟩
      · simp only [carveAt, if_pos h, hb, hc, hrest]
        rw [Nat.add_assoc, Nat.sub_sub]
      · simp only [carveAt, if_pos h, hb, hc, flatMap_cons, hcells, Chunk.cells,
          Nat.mul_div_cancel_left b hu]
        rw [← List.range'_append_1]
    · exact ⟨0, by simp [carveAt, h], Nat.zero_le c, by simp [carveAt, h]⟩

/-- With enough rounds the inner loop stops below one chunk. -/
theorem carveAt_rest_lt (k : Nat) : ∀ (n base len : Nat), len < (n + 1) * chunkSize unit k →
      (carveAt unit k n base len).2.2 < chunkSize unit k := by
  intro n
  induction n with
  | zero => intro base len h; simpa [carveAt] using h
  | succ n ih =>
    intro base len h
    by_cases hk : chunkSize unit k ≤ len
    · simp only [carveAt, if_pos hk]
      apply ih
      have hsplit : (n + 1 + 1) * chunkSize unit k
          = (n + 1) * chunkSize unit k + chunkSize unit k := by ring
      omega
    · simp only [carveAt, if_neg hk]
      omega

theorem rounds_enough (hu : 0 < unit) (k len : Nat) :
    len < (rounds unit k len + 1) * chunkSize unit k := by
  have hpos := chunkSize_pos hu k
  have := Nat.lt_div_mul_add hpos (a := len)
  unfold rounds
  rw [Nat.add_mul]
  omega

/-! ## §3. The whole decomposition. -/

/-- The chunks of a range cover exactly its cells, in address order. -/
theorem carve_cells (hu : 0 < unit) (k : Nat) :
    ∀ (b c : Nat), (carve unit k (unit * b) (unit * c)).flatMap (Chunk.cells unit)
      = List.range' b c := by
  induction k with
  | zero =>
    intro b c
    obtain ⟨m, hrest, hm, hcells⟩ := carveAt_cells hu 0 (rounds unit 0 (unit * c)) b c
    have hlt := carveAt_rest_lt 0 (rounds unit 0 (unit * c)) (unit * b) (unit * c)
      (rounds_enough hu 0 (unit * c))
    -- order 0 leaves less than one cell, and the rest is a multiple of the cell
    rw [hrest] at hlt
    have hzero : c - m < 1 := by
      have : unit * (c - m) < unit * 1 := by simpa [chunkSize] using hlt
      exact Nat.lt_of_mul_lt_mul_left this
    have hmc : m = c := by omega
    subst hmc
    exact hcells
  | succ k ih =>
    intro b c
    obtain ⟨m, hrest, hm, hcells⟩ := carveAt_cells hu (k + 1) (rounds unit (k + 1) (unit * c)) b c
    simp only [carve, flatMap_append, hcells, hrest, ih]
    rw [List.range'_append_1]
    congr 1
    omega

/-- Every chunk of the decomposition has an order up to the top one. -/
theorem carve_order_le (k : Nat) :
    ∀ (base len : Nat), ∀ c ∈ carve unit k base len, c.order ≤ k := by
  have inner : ∀ (j n base len : Nat), ∀ c ∈ (carveAt unit j n base len).1, c.order = j := by
    intro j n
    induction n with
    | zero => intro base len c hc; simp [carveAt] at hc
    | succ n ih =>
      intro base len c hc
      simp only [carveAt] at hc
      split at hc
      · rcases mem_cons.mp hc with rfl | hc
        · rfl
        · exact ih _ _ c hc
      · simp at hc
  induction k with
  | zero => intro base len c hc; exact (inner 0 _ base len c hc).le
  | succ k ih =>
    intro base len c hc
    rcases mem_append.mp hc with hc | hc
    · exact (inner (k + 1) _ base len c hc).le
    · exact Nat.le_succ_of_le (ih _ _ c hc)

/-- Every chunk of a range of whole cells starts on a cell. -/
theorem carve_base (hu : 0 < unit) (k : Nat) :
    ∀ (b c : Nat), ∀ x ∈ carve unit k (unit * b) (unit * c),
      ∃ a, x.base = unit * a ∧ b ≤ a ∧ a + 2 ^ x.order ≤ b + c := by
  have inner : ∀ (j n b c : Nat), ∀ x ∈ (carveAt unit j n (unit * b) (unit * c)).1,
      ∃ a, x.base = unit * a ∧ b ≤ a ∧ a + 2 ^ x.order ≤ b + c := by
    intro j n
    induction n with
    | zero => intro b c x hx; simp [carveAt] at hx
    | succ n ih =>
      intro b c x hx
      by_cases h : chunkSize unit j ≤ unit * c
      · have hj : 2 ^ j ≤ c := Nat.le_of_mul_le_mul_left h hu
        simp only [carveAt, if_pos h] at hx
        rcases mem_cons.mp hx with rfl | hx
        · exact ⟨b, rfl, Nat.le_refl b, by simpa using hj⟩
        rw [show unit * b + chunkSize unit j = unit * (b + 2 ^ j) by unfold chunkSize; ring,
          show unit * c - chunkSize unit j = unit * (c - 2 ^ j) by
            unfold chunkSize; rw [Nat.mul_sub]] at hx
        obtain ⟨a, ha, hlo, hhi⟩ := ih _ _ x hx
        exact ⟨a, ha, Nat.le_trans (Nat.le_add_right b _) hlo, by omega⟩
      · simp [carveAt, h] at hx
  induction k with
  | zero => intro b c x hx; exact inner 0 _ b c x hx
  | succ k ih =>
    intro b c x hx
    rcases mem_append.mp hx with hx | hx
    · exact inner (k + 1) _ b c x hx
    · obtain ⟨m, hrest, hm, -⟩ := carveAt_cells hu (k + 1) (rounds unit (k + 1) (unit * c)) b c
      rw [hrest] at hx
      obtain ⟨a, ha, hlo, hhi⟩ := ih _ _ x hx
      exact ⟨a, ha, by omega, by omega⟩

end Coverage

/-! ## §4. The rest of a split block. -/

section Split

variable {unit : Nat}

/-- An order whose chunk is longer than the rest takes nothing. -/
theorem carveAt_of_lt {k n base len : Nat} (h : len < chunkSize unit k) :
    carveAt unit k n base len = ([], base, len) := by
  cases n with
  | zero => rfl
  | succ => simp [carveAt, Nat.not_le.mpr h]

/-- A rest shorter than two chunks of order `k + 1` and at least one gives
one chunk of that order. -/
theorem carve_cons {k base len : Nat} (hlo : chunkSize unit (k + 1) ≤ len)
    (hhi : len < 2 * chunkSize unit (k + 1)) : carve unit (k + 1) base len
      = ⟨base, k + 1⟩ :: carve unit k (base + chunkSize unit (k + 1))
          (len - chunkSize unit (k + 1)) := by
  have hr : rounds unit (k + 1) len = 1 := by
    unfold rounds
    exact Nat.div_eq_of_lt_le (by omega) (by omega)
  simp [carve, hr, carveAt, hlo]

/-- One chunk of each order `k, k−1, …, o`, from the left. -/
def ladder (unit o : Nat) : Nat → Nat → List Chunk
  | 0, base => [⟨base, o⟩]
  | n + 1, base => ⟨base, o + (n + 1)⟩ :: ladder unit o n (base + chunkSize unit (o + (n + 1)))

/-- A rest of `2^(o+n+1) − 2^o` cells is cut into the ladder of the orders
`o + n, …, o`: this is what is left of a block of order `o + n + 1` once its
head of order `o` is taken. -/
theorem carve_ladder (hu : 0 < unit) (o : Nat) : ∀ (n k base : Nat), o + n ≤ k →
      carve unit k base (unit * (2 ^ (o + n + 1) - 2 ^ o)) = ladder unit o n base := by
  intro n k
  induction k generalizing n with
  | zero =>
    intro base h
    obtain rfl : o = 0 := by omega
    obtain rfl : n = 0 := by omega
    have hr : rounds unit 0 unit = 1 := by
      simp [rounds, chunkSize, Nat.div_self hu]
    simp [carve, ladder, hr, carveAt, chunkSize]
  | succ k ih =>
    intro base h
    have hsize : chunkSize unit (k + 1) = unit * 2 ^ (k + 1) := rfl
    rcases Nat.lt_or_ge k (o + n) with hk | hk
    · -- the top order is the ladder's first chunk
      have hkn : o + n = k + 1 := by omega
      have hpow : 2 ^ (o + n + 1) = 2 ^ (k + 1) + 2 ^ (k + 1) := by
        rw [hkn, Nat.pow_succ]; omega
      have hle : 2 ^ o ≤ 2 ^ (k + 1) := Nat.pow_le_pow_right (by omega) (by omega)
      have hopos : 0 < 2 ^ o := Nat.two_pow_pos o
      rw [carve_cons]
      · cases n with
        | zero =>
          subst hkn
          simp only [ladder, List.cons.injEq, true_and]
          rw [hsize, ← Nat.mul_sub, hpow]
          have hz : 2 ^ (k + 1) + 2 ^ (k + 1) - 2 ^ (k + 1) - 2 ^ (k + 1) = 0 := by omega
          rw [hz, Nat.mul_zero]
          exact carve_zero k _
        | succ n =>
          rw [← hkn, show o + (n + 1) + 1 = o + n + 1 + 1 by omega]
          congr 1
          rw [show chunkSize unit (o + (n + 1)) = unit * 2 ^ (o + n + 1) from rfl, ← Nat.mul_sub]
          have hrest : 2 ^ (o + n + 1 + 1) - 2 ^ o - 2 ^ (o + n + 1)
              = 2 ^ (o + n + 1) - 2 ^ o := by
            rw [Nat.pow_succ]; omega
          rw [hrest]
          exact ih n _ (by omega)
      · rw [hsize, hpow]
        exact Nat.mul_le_mul_left unit (by omega)
      · rw [hsize, hpow, ← Nat.mul_assoc, Nat.mul_comm 2 unit, Nat.mul_assoc]
        exact Nat.mul_lt_mul_of_pos_left (by omega) hu
    · -- the top order is longer than the rest
      have hlt : unit * (2 ^ (o + n + 1) - 2 ^ o) < chunkSize unit (k + 1) := by
        have h1 : 2 ^ (o + n + 1) ≤ 2 ^ (k + 1) := Nat.pow_le_pow_right (by omega) (by omega)
        have h2 : 0 < 2 ^ o := Nat.two_pow_pos o
        exact Nat.mul_lt_mul_of_pos_left (Nat.lt_of_lt_of_le
          (Nat.sub_lt (Nat.two_pow_pos _) h2) h1) hu
      simp only [carve, carveAt_of_lt hlt, nil_append]
      exact ih n base hk
where
  carve_zero (k base : Nat) : carve unit k base 0 = [] := by
    induction k generalizing base with
    | zero => simp [carve, rounds, carveAt]
    | succ k ih => simp [carve, rounds, carveAt, ih]

end Split

end BigOS.Lib.Carve
