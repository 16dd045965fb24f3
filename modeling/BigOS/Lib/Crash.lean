/-
  BigOS.Lib.Crash — a log of writes that may be cut anywhere.

  Writes reach a device one after another, and a crash leaves the device after
  some prefix of them.  `EveryCut` says that a property holds wherever the writes
  are cut; it splits along the writes, so a protocol is checked stretch by
  stretch.  A recovery is itself a list of writes that a crash may cut, and
  `Withstands` counts how many such crashes it survives.

  Main results:
    • `everyCut_append`, `everyCut_cons` — splitting the writes,
    • `EveryCut.of_invariant` — a stretch that keeps a property,
    • `withstands_of_invariant` — the rule for repeated recovery.
-/
import Mathlib.Data.List.Basic

namespace BigOS.Lib.Crash

open List

variable {σ ω : Type} {apply : σ → ω → σ} {P Q Good : σ → Prop} {s : σ} {ws vs : List ω} {w : ω}

/-- The device after all writes. -/
def applyAll (apply : σ → ω → σ) (s : σ) (ws : List ω) : σ := ws.foldl apply s

@[simp] theorem applyAll_nil : applyAll apply s [] = s := rfl

@[simp] theorem applyAll_cons : applyAll apply s (w :: ws) = applyAll apply (apply s w) ws := rfl

theorem applyAll_append : applyAll apply s (ws ++ vs) = applyAll apply (applyAll apply s ws) vs :=
  foldl_append

/-- A value that no write changes. -/
theorem applyAll_unchanged {α : Type} {f : σ → α} (h : ∀ s, ∀ w ∈ ws, f (apply s w) = f s) :
    f (applyAll apply s ws) = f s := by
  induction ws generalizing s with
  | nil => rfl
  | cons w ws ih =>
    rw [applyAll_cons, ih (fun s v hv => h s v (mem_cons_of_mem w hv))]
    exact h s w mem_cons_self

/-- The property holds wherever the writes are cut. -/
def EveryCut (apply : σ → ω → σ) (P : σ → Prop) (s : σ) (ws : List ω) : Prop :=
  ∀ n, P (applyAll apply s (ws.take n))

@[simp] theorem everyCut_nil : EveryCut apply P s [] ↔ P s := by
  unfold EveryCut
  simp

theorem everyCut_cons : EveryCut apply P s (w :: ws) ↔ P s ∧ EveryCut apply P (apply s w) ws := by
  constructor
  · intro h
    exact ⟨h 0, fun n => h (n + 1)⟩
  · rintro ⟨h0, h1⟩ n
    cases n with
    | zero => exact h0
    | succ n => exact h1 n

theorem everyCut_append : EveryCut apply P s (ws ++ vs) ↔
    EveryCut apply P s ws ∧ EveryCut apply P (applyAll apply s ws) vs := by
  induction ws generalizing s with
  | nil =>
    rw [nil_append, applyAll_nil, everyCut_nil]
    -- The cut before the first write belongs to both sides.
    exact ⟨fun h => ⟨h 0, h⟩, fun h => h.2⟩
  | cons w ws ih =>
    rw [cons_append, everyCut_cons, everyCut_cons, ih, applyAll_cons, and_assoc]

theorem EveryCut.finish (h : EveryCut apply P s ws) : P (applyAll apply s ws) := by
  have hall := h ws.length
  rwa [take_length] at hall

theorem EveryCut.mono (h : EveryCut apply P s ws) (hpq : ∀ s, P s → Q s) : EveryCut apply Q s ws :=
  fun n => hpq _ (h n)

/-- A stretch of writes that all keep a property. -/
theorem EveryCut.of_invariant (hs : P s) (hw : ∀ s, ∀ w ∈ ws, P s → P (apply s w)) :
    EveryCut apply P s ws := by
  induction ws generalizing s with
  | nil => exact everyCut_nil.mpr hs
  | cons w ws ih =>
    refine everyCut_cons.mpr ⟨hs, ih (hw s w mem_cons_self hs) ?_⟩
    exact fun s v hv => hw s v (mem_cons_of_mem w hv)

/-! ## Recovery. -/

/-- Recovery succeeds with a good result, and does so again after a crash in its
midst, for the given number of crashes. -/
def Withstands (apply : σ → ω → σ) (recover : σ → Option (List ω)) (Good : σ → Prop) :
    Nat → σ → Prop
  | 0, s => ∃ ws, recover s = some ws ∧ Good (applyAll apply s ws)
  | n + 1, s => ∃ ws, recover s = some ws ∧ Good (applyAll apply s ws) ∧
      EveryCut apply (Withstands apply recover Good n) s ws

/-- A property that makes recovery succeed and that recovery keeps at every cut. -/
theorem withstands_of_invariant {recover : σ → Option (List ω)} {I : σ → Prop}
    (h : ∀ s, I s → ∃ ws, recover s = some ws ∧ Good (applyAll apply s ws) ∧
      EveryCut apply I s ws) (hs : I s) (n : Nat) : Withstands apply recover Good n s := by
  induction n generalizing s with
  | zero =>
    obtain ⟨ws, hrec, hgood, _⟩ := h s hs
    exact ⟨ws, hrec, hgood⟩
  | succ n ih =>
    obtain ⟨ws, hrec, hgood, hcut⟩ := h s hs
    exact ⟨ws, hrec, hgood, hcut.mono (fun t ht => ih ht)⟩

/-- Recovery that withstands any crash succeeds. -/
theorem Withstands.succeeds {recover : σ → Option (List ω)} {n : Nat}
    (h : Withstands apply recover Good n s) : ∃ ws, recover s = some ws := by
  cases n with
  | zero => exact ⟨h.choose, h.choose_spec.1⟩
  | succ => exact ⟨h.choose, h.choose_spec.1⟩

end BigOS.Lib.Crash
