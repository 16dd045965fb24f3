/-
  BigOS.Lib.Ownership — owners, what they own, and a table of what is in use.

  Every owner has at most one thing, no thing has two owners, and the table marks
  exactly the things that are owned.  A free thing may be given to an owner without
  one, and owners may give theirs up.

  Main results: `Tidy.claim`, `Tidy.release`.
-/
import Mathlib.Logic.Function.Basic

namespace BigOS.Lib

variable {ω β : Type*} {own own' : ω → Option β} {used used' : β → Prop}

structure Tidy (own : ω → Option β) (used : β → Prop) : Prop where
  mem : ∀ o b, own o = some b → used b
  inj : ∀ o o' b, own o = some b → own o' = some b → o = o'
  owned : ∀ b, used b → ∃ o, own o = some b

namespace Tidy

theorem congr (h : Tidy own used) (hown : ∀ o, own' o = own o)
    (hused : ∀ b, used' b ↔ used b) : Tidy own' used' where
  mem o b ho := (hused b).mpr (h.mem o b ((hown o).symm.trans ho))
  inj o o' b ho ho' := h.inj o o' b ((hown o).symm.trans ho) ((hown o').symm.trans ho')
  owned b hb := by
    obtain ⟨o, ho⟩ := h.owned b ((hused b).mp hb)
    exact ⟨o, (hown o).trans ho⟩

/-- An owner without anything gets something that is free. -/
theorem claim {o : ω} {b : β} (h : Tidy own used) (hnone : own o = none) (hfree : ¬used b)
    (hnew : own' o = some b) (hold : ∀ o', o' ≠ o → own' o' = own o')
    (hused : ∀ b', used' b' ↔ used b' ∨ b' = b) : Tidy own' used' := by
  classical
  -- An owner of the new table is the new one or an old one.
  have hcases : ∀ o' b', own' o' = some b' → (o' = o ∧ b' = b) ∨ own o' = some b' := by
    intro o' b' ho'
    by_cases hoo : o' = o
    · subst hoo
      exact .inl ⟨rfl, Option.some.inj (ho'.symm.trans hnew)⟩
    · exact .inr ((hold o' hoo).symm.trans ho')
  constructor
  case mem =>
    intro o' b' ho'
    rcases hcases o' b' ho' with ⟨_, hb⟩ | hown
    · exact (hused b').mpr (.inr hb)
    · exact (hused b').mpr (.inl (h.mem o' b' hown))
  case inj =>
    intro o1 o2 b' h1 h2
    rcases hcases o1 b' h1 with ⟨ho1, hb1⟩ | hown1 <;>
      rcases hcases o2 b' h2 with ⟨ho2, hb2⟩ | hown2
    · exact ho1.trans ho2.symm
    · exact absurd (h.mem o2 b' hown2) (hb1 ▸ hfree)
    · exact absurd (h.mem o1 b' hown1) (hb2 ▸ hfree)
    · exact h.inj o1 o2 b' hown1 hown2
  case owned =>
    intro b' hb'
    rcases (hused b').mp hb' with hold' | rfl
    · obtain ⟨o', ho'⟩ := h.owned b' hold'
      have hoo : o' ≠ o := by
        rintro rfl
        cases hnone.symm.trans ho'
      exact ⟨o', (hold o' hoo).trans ho'⟩
    · exact ⟨o, hnew⟩

/-- The owners with the property give up what they have. -/
theorem release {p : ω → Prop} (h : Tidy own used) (hgone : ∀ o, p o → own' o = none)
    (hold : ∀ o, ¬p o → own' o = own o)
    (hused : ∀ b, used' b ↔ used b ∧ ∀ o, p o → own o ≠ some b) : Tidy own' used' := by
  -- An owner of the new table has not given up, and has what it had.
  have hcases : ∀ o b, own' o = some b → ¬p o ∧ own o = some b := by
    intro o b ho
    have hp : ¬p o := fun hp => absurd ((hgone o hp).symm.trans ho) (by simp)
    exact ⟨hp, (hold o hp).symm.trans ho⟩
  constructor
  case mem =>
    intro o b ho
    obtain ⟨hp, hown⟩ := hcases o b ho
    refine (hused b).mpr ⟨h.mem o b hown, fun o' hp' hown' => ?_⟩
    exact hp (h.inj o o' b hown hown' ▸ hp')
  case inj => exact fun o o' b ho ho' => h.inj o o' b (hcases o b ho).2 (hcases o' b ho').2
  case owned =>
    intro b hb
    obtain ⟨hused', hnot⟩ := (hused b).mp hb
    obtain ⟨o, ho⟩ := h.owned b hused'
    exact ⟨o, (hold o (fun hp => hnot o hp ho)).trans ho⟩

end Tidy

end BigOS.Lib
