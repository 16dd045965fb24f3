/-
  BigOS.Lib.Padded — lists that read as zero beyond their end.

  An array that grows with zeros: `resize` cuts it or pads it, `overwrite` stores a
  run of values at an offset and pads the gap before it.  Both are described by their
  length and by what stands at any index, in the list or beyond it.

  Main results:
    • `ext` — two lists of one length that agree everywhere,
    • `getD_resize`, `getD_overwrite`, `getD_window` — what stands where.
-/
import Mathlib.Data.List.GetD

namespace BigOS.Lib.Padded

open List

variable {α : Type*} (z : α)

/-- The first `n` values, padded where there are fewer. -/
def resize (f : List α) (n : Nat) : List α := f.take n ++ List.replicate (n - f.length) z

/-- The values are stored from the offset on. -/
def overwrite (f : List α) (offset : Nat) (values : List α) : List α :=
  resize z f offset ++ values ++ f.drop (offset + values.length)

theorem ext {f g : List α} (hlen : f.length = g.length) (h : ∀ p, f.getD p z = g.getD p z) :
    f = g := by
  apply ext_getElem hlen
  intro p hf hg
  have hp := h p
  rwa [getD_eq_getElem _ _ hf, getD_eq_getElem _ _ hg] at hp

theorem getD_append (f g : List α) (p : Nat) :
    (f ++ g).getD p z = if p < f.length then f.getD p z else g.getD (p - f.length) z := by
  split
  · rename_i hp
    exact List.getD_append _ _ _ _ hp
  · rename_i hp
    exact getD_append_right _ _ _ _ (Nat.not_lt.mp hp)

theorem getD_take (f : List α) (n p : Nat) :
    (f.take n).getD p z = if p < n then f.getD p z else z := by
  simp only [getD_eq_getElem?_getD, List.getElem?_take]
  split <;> rfl

theorem getD_drop (f : List α) (n p : Nat) : (f.drop n).getD p z = f.getD (n + p) z := by
  simp only [getD_eq_getElem?_getD, List.getElem?_drop]

theorem getD_replicate (n p : Nat) : (List.replicate n z).getD p z = z := by
  simp only [getD_eq_getElem?_getD, List.getElem?_replicate]
  split <;> rfl

theorem getD_map_range (F : Nat → α) (n p : Nat) :
    ((List.range n).map F).getD p z = if p < n then F p else z := by
  split
  · rename_i hp
    rw [getD_eq_getElem _ _ (by simpa using hp)]
    simp
  · rename_i hp
    rw [getD_eq_default _ _ (by simpa using hp)]

section

variable (f : List α)

include f

theorem length_resize (n : Nat) : (resize z f n).length = n := by
  simp only [resize, length_append, length_take, length_replicate]
  omega

theorem resize_length : resize z f f.length = f := by
  rw [resize, take_length, Nat.sub_self, replicate_zero, append_nil]

theorem getD_resize (n p : Nat) : (resize z f n).getD p z = if p < n then f.getD p z else z := by
  rw [resize, getD_append, getD_take, getD_replicate, length_take]
  by_cases hp : p < n
  · rw [if_pos hp]
    split
    · rfl
    · -- In the padding, where the list has ended.
      rw [getD_eq_default]
      omega
  · rw [if_neg hp]
    split <;> rfl

theorem length_overwrite (offset : Nat) (values : List α) :
    (overwrite z f offset values).length = max f.length (offset + values.length) := by
  simp only [overwrite, length_append, length_resize, length_drop]
  omega

theorem getD_overwrite (offset : Nat) (values : List α) (p : Nat) :
    (overwrite z f offset values).getD p z =
      if offset ≤ p ∧ p < offset + values.length then values.getD (p - offset) z
      else f.getD p z := by
  rw [overwrite, getD_append, getD_append, getD_resize, getD_drop, length_append, length_resize]
  -- Before the values, among them, and behind them.
  by_cases hlo : p < offset
  · rw [if_pos (by omega), if_pos hlo, if_pos hlo, if_neg (by omega)]
  by_cases hhi : p < offset + values.length
  · rw [if_pos hhi, if_neg hlo, if_pos ⟨by omega, hhi⟩]
  · rw [if_neg hhi, if_neg (fun h => hhi h.2)]
    congr 1
    omega

/-- The values from the offset on, as many as there are and at most `n`. -/
theorem getD_window (offset n p : Nat) :
    ((f.drop offset).take n).getD p z = if p < n then f.getD (offset + p) z else z := by
  rw [getD_take, getD_drop]

end

end BigOS.Lib.Padded
