/-
  BigOS.Lib.Retained — things that are retained and released.

  A thing is made with one reference; whoever holds a reference may take another, and the
  release of the last one closes the thing.  References are counted by whoever keeps them:
  `held` says how many there are.

  Main results:
    • `Exact.create`, `Exact.retain`, `Exact.release` — one reference more or less,
    • `Exact.retainAll`, `Exact.releaseAll` — those of a list.
-/
import Mathlib.Data.List.Basic

namespace BigOS.Lib

open Function

/-- The things below `opened` have been made; `closes` counts how often one was closed. -/
structure Retained where
  opened : Nat
  refCount : Nat → Nat
  closes : Nat → Nat

namespace Retained

variable {s : Retained} {held : Nat → Nat} {a : Nat}

def create (s : Retained) : Retained :=
  { s with opened := s.opened + 1, refCount := update s.refCount s.opened 1 }

def retain (s : Retained) (a : Nat) : Retained :=
  { s with refCount := update s.refCount a (s.refCount a + 1) }

/-- The last reference closes the thing, and its count is gone with it. -/
def release (s : Retained) (a : Nat) : Retained :=
  if 1 < s.refCount a then
    { s with refCount := update s.refCount a (s.refCount a - 1) }
  else
    { s with
      refCount := update s.refCount a 0
      closes := update s.closes a (s.closes a + 1) }

/-- The counts are those of the references, and a thing is closed, once, when it has no
reference any more. -/
def Exact (s : Retained) (held : Nat → Nat) : Prop :=
  ∀ b, s.refCount b = held b ∧ (s.closes b = if b < s.opened ∧ held b = 0 then 1 else 0) ∧
    (s.opened ≤ b → held b = 0)

theorem Exact.congr {held' : Nat → Nat} (h : s.Exact held) (heq : ∀ b, held b = held' b) :
    s.Exact held' := by
  rwa [← funext heq]

theorem Exact.create (h : s.Exact held) :
    s.create.Exact (fun b => held b + if b = s.opened then 1 else 0) := by
  intro b
  obtain ⟨hcount, hcloses, hnew⟩ := h b
  simp only [Retained.create, update_apply]
  grind

theorem Exact.retain (h : s.Exact held) (hpos : 0 < held a) :
    (s.retain a).Exact (fun b => held b + if b = a then 1 else 0) := by
  intro b
  obtain ⟨hcount, hcloses, hnew⟩ := h b
  simp only [Retained.retain, update_apply]
  grind

theorem Exact.release (h : s.Exact (fun b => held b + if b = a then 1 else 0)) :
    (s.release a).Exact held := by
  intro b
  obtain ⟨hcount, hcloses, hnew⟩ := h b
  unfold Retained.release
  split <;> simp only [update_apply] <;> grind

theorem Exact.retainAll (l : List Nat) (h : s.Exact held) (hpos : ∀ b ∈ l, 0 < held b) :
    (l.foldl Retained.retain s).Exact (fun b => held b + l.count b) := by
  induction l generalizing s held with
  | nil => exact h
  | cons a l ih =>
    have hone := h.retain (hpos a List.mem_cons_self)
    refine (ih hone (fun b hb => ?_)).congr (fun b => ?_)
    · exact Nat.add_pos_left (hpos b (List.mem_cons_of_mem _ hb)) _
    · simp only [List.count_cons, beq_iff_eq, eq_comm (a := b)]
      omega

theorem Exact.releaseAll (l : List Nat) (h : s.Exact (fun b => held b + l.count b)) :
    (l.foldl Retained.release s).Exact held := by
  induction l generalizing s with
  | nil => exact h
  | cons a l ih =>
    refine ih (Exact.release (h.congr (fun b => ?_)))
    simp only [List.count_cons, beq_iff_eq, eq_comm (a := b)]
    omega

end Retained

end BigOS.Lib
