/-
  BigOS.Lib.Ring — a ring buffer with a read index, a write index and a count.

  The three numbers are kept apart, as code usually keeps them; `Valid` says how
  they hang together.  What the buffer means is the list of its entries from the
  oldest to the newest.

  Main results:
    • `contents_push`, `Valid.push` — storing an entry,
    • `contents_pop`, `Valid.pop` — taking the oldest entry,
    • `takeUpTo_spec` — taking entries until enough are taken or none is left.
-/
import Mathlib.Data.List.Basic
import Mathlib.Data.Nat.ModEq

namespace BigOS.Lib

open Function List

/-- A ring buffer of capacity `cap`. -/
structure Ring (α : Type) (cap : Nat) where
  buf : Nat → α
  head : Nat
  tail : Nat
  count : Nat

namespace Ring

variable {α : Type} {cap : Nat} {r : Ring α cap} {x : α}

/-! ## §1. The operations. -/

def push (r : Ring α cap) (x : α) : Ring α cap where
  buf := update r.buf r.tail x
  head := r.head
  tail := (r.tail + 1) % cap
  count := r.count + 1

def front (r : Ring α cap) : α := r.buf r.head

def pop (r : Ring α cap) : Ring α cap where
  buf := r.buf
  head := (r.head + 1) % cap
  tail := r.tail
  count := r.count - 1

/-- The entries from the oldest to the newest. -/
def contents (r : Ring α cap) : List α :=
  (List.range r.count).map (fun i => r.buf ((r.head + i) % cap))

/-- The indices are in range and the count is the distance between them. -/
structure Valid (r : Ring α cap) : Prop where
  head_lt : r.head < cap
  count_le : r.count ≤ cap
  tail_eq : (r.head + r.count) % cap = r.tail

/-! ## §2. What they do to the contents. -/

theorem length_contents : r.contents.length = r.count := by
  unfold contents
  rw [length_map, length_range]

theorem contents_of_count_zero (h : r.count = 0) : r.contents = [] := by
  unfold contents
  rw [h]
  rfl

theorem Valid.push (h : r.Valid) (hroom : r.count < cap) : (r.push x).Valid := by
  refine ⟨h.head_lt, hroom, ?_⟩
  show (r.head + (r.count + 1)) % cap = (r.tail + 1) % cap
  rw [← h.tail_eq, Nat.mod_add_mod, Nat.add_assoc]

theorem contents_push (h : r.Valid) (hroom : r.count < cap) :
    (r.push x).contents = r.contents ++ [x] := by
  unfold contents
  show (List.range (r.count + 1)).map (fun i => update r.buf r.tail x _) = _
  rw [range_succ, map_append, map_singleton]
  congr 1
  · apply map_congr_left
    intro i hi
    have hlt : i < r.count := mem_range.mp hi
    -- An entry that is there is not where the new one goes.
    have hne : (r.head + i) % cap ≠ r.tail := by
      rw [← h.tail_eq]
      intro heq
      have hmod : i ≡ r.count [MOD cap] := .add_left_cancel' r.head heq
      exact hlt.ne (hmod.eq_of_lt_of_lt (hlt.trans hroom) hroom)
    exact update_of_ne hne _ _
  · show [update r.buf r.tail x ((r.head + r.count) % cap)] = [x]
    rw [h.tail_eq, update_self]

theorem Valid.pop (h : r.Valid) (hsome : 0 < r.count) : r.pop.Valid := by
  have hcap : 0 < cap := Nat.lt_of_le_of_lt (Nat.zero_le _) h.head_lt
  refine ⟨Nat.mod_lt _ hcap, ?_, ?_⟩
  · show r.count - 1 ≤ cap
    have := h.count_le
    omega
  · show ((r.head + 1) % cap + (r.count - 1)) % cap = r.tail
    rw [Nat.mod_add_mod, ← h.tail_eq]
    congr 1
    omega

theorem contents_pop (h : r.Valid) (hsome : 0 < r.count) :
    r.contents = r.front :: r.pop.contents := by
  obtain ⟨n, hn⟩ : ∃ n, r.count = n + 1 := ⟨r.count - 1, by omega⟩
  unfold contents
  show _ = r.front :: (List.range (r.count - 1)).map
    (fun i => r.buf (((r.head + 1) % cap + i) % cap))
  rw [hn, range_succ_eq_map, map_cons, map_map]
  congr 1
  · show r.buf ((r.head + 0) % cap) = r.buf r.head
    rw [Nat.add_zero, Nat.mod_eq_of_lt h.head_lt]
  · apply map_congr_left
    intro i _
    show r.buf ((r.head + (i + 1)) % cap) = r.buf (((r.head + 1) % cap + i) % cap)
    rw [Nat.mod_add_mod]
    congr 2
    omega

/-! ## §3. Taking several entries. -/

/-- Take entries until `n` are taken or none is left. -/
def takeUpTo : Nat → Ring α cap → List α × Ring α cap
  | 0, r => ([], r)
  | n + 1, r =>
    if r.count = 0 then ([], r)
    else (r.front :: (takeUpTo n r.pop).1, (takeUpTo n r.pop).2)

theorem takeUpTo_spec (n : Nat) (h : r.Valid) :
    (takeUpTo n r).2.Valid ∧ r.contents = (takeUpTo n r).1 ++ (takeUpTo n r).2.contents := by
  induction n generalizing r with
  | zero => exact ⟨h, rfl⟩
  | succ n ih =>
    unfold takeUpTo
    by_cases hzero : r.count = 0
    · rw [if_pos hzero]
      exact ⟨h, rfl⟩
    rw [if_neg hzero]
    have hsome : 0 < r.count := Nat.pos_of_ne_zero hzero
    obtain ⟨hvalid, hcontents⟩ := ih (h.pop hsome)
    refine ⟨hvalid, ?_⟩
    rw [contents_pop h hsome, hcontents]
    rfl

theorem takeUpTo_count (n : Nat) : (takeUpTo n r).2.count = r.count - n := by
  induction n generalizing r with
  | zero => rfl
  | succ n ih =>
    unfold takeUpTo
    split
    · rename_i hzero
      rw [hzero, Nat.zero_sub]
    · rw [ih]
      show r.count - 1 - n = _
      omega

theorem takeUpTo_ne_nil {n : Nat} (hn : 0 < n) (hsome : 0 < r.count) : (takeUpTo n r).1 ≠ [] := by
  cases n with
  | zero => exact absurd hn (Nat.lt_irrefl 0)
  | succ =>
    unfold takeUpTo
    rw [if_neg (Nat.pos_iff_ne_zero.mp hsome)]
    exact cons_ne_nil _ _

end Ring

end BigOS.Lib
