/-
  BigOS.Lib.NameTree — a tree of named entries.

  Directories are nodes with slots; an entry in a slot gives a node a name.  A tree
  is well formed when entries lead from live directories to live nodes, every live
  node but the root has exactly one entry, no directory has two entries of one name,
  and depths rise along entries.

  The lemmas say that adding an entry for a new node, removing the entry of a node
  without entries, and giving such a node another entry keep a tree well formed.  The
  new tree is described point by point, so that any representation of it will do.

  Main results:
    • `WellFormed.reachable` — every live node is reachable from the root,
    • `WellFormed.add`, `WellFormed.remove`, `WellFormed.move` — the changes.
-/
import Mathlib.Data.Nat.Basic

namespace BigOS.Lib

/-- Nodes `ν`, slots `σ` and names `α`. -/
structure NameTree (ν σ α : Type*) where
  root : ν
  live : ν → Prop
  dir : ν → Prop
  entry : ν → σ → Option (ν × α)

namespace NameTree

variable {ν σ α : Type*} {t t' : NameTree ν σ α} {d c : ν} {s : σ} {a : α}

structure WellFormed (t : NameTree ν σ α) : Prop where
  root_live : t.live t.root
  root_dir : t.dir t.root
  source : ∀ d s c a, t.entry d s = some (c, a) → t.live d ∧ t.dir d
  target : ∀ d s c a, t.entry d s = some (c, a) → t.live c ∧ c ≠ t.root
  unique : ∀ d s d' s' c a a', t.entry d s = some (c, a) → t.entry d' s' = some (c, a') →
    d = d' ∧ s = s'
  names : ∀ d s s' c c' a, t.entry d s = some (c, a) → t.entry d s' = some (c', a) → s = s'
  linked : ∀ c, t.live c → c ≠ t.root → ∃ d s a, t.entry d s = some (c, a)
  ranked : ∃ depth : ν → Nat, ∀ d s c a, t.entry d s = some (c, a) → depth c = depth d + 1

/-- What a walk along entries from the root reaches. -/
inductive Reachable (t : NameTree ν σ α) : ν → Prop where
  | root : Reachable t t.root
  | step {d c : ν} {s : σ} {a : α} :
      Reachable t d → t.entry d s = some (c, a) → Reachable t c

section

variable (h : WellFormed t)

include h

namespace WellFormed

/-- Up the tree the depth falls, so the walk ends at the root. -/
theorem reachable (hc : t.live c) : Reachable t c := by
  obtain ⟨depth, hdepth⟩ := h.ranked
  induction hn : depth c using Nat.strong_induction_on generalizing c with
  | _ n ih =>
    by_cases hroot : c = t.root
    · rw [hroot]
      exact .root
    obtain ⟨d, s, a, he⟩ := h.linked c hc hroot
    have hlt : depth d < n := by
      rw [← hn, hdepth d s c a he]
      exact Nat.lt_succ_self _
    exact .step (ih (depth d) hlt (h.source d s c a he).1 rfl) he

/-- No node is below itself. -/
theorem acyclic {below : ν → ν → Prop}
    (hbelow : ∀ d c, below d c → ∃ s a, t.entry d s = some (c, a)) :
    ∀ d, ¬Relation.TransGen below d d := by
  obtain ⟨depth, hdepth⟩ := h.ranked
  have hlt : ∀ d c, Relation.TransGen below d c → depth d < depth c := by
    intro d c hpath
    induction hpath with
    | single hone =>
      obtain ⟨s, a, he⟩ := hbelow _ _ hone
      rw [hdepth _ _ _ _ he]
      exact Nat.lt_succ_self _
    | tail _ hone ih =>
      obtain ⟨s, a, he⟩ := hbelow _ _ hone
      rw [hdepth _ _ _ _ he]
      exact Nat.lt_succ_of_lt ih
  exact fun d hpath => Nat.lt_irrefl _ (hlt d d hpath)

/-- The entries are among those of a tree, between nodes that are left. -/
theorem restrict (hroot : t'.root = t.root) (hlive : t'.live t.root) (hdir : t'.dir t.root)
    (hsub : ∀ d s c a, t'.entry d s = some (c, a) →
      t.entry d s = some (c, a) ∧ t'.live d ∧ t'.dir d ∧ t'.live c)
    (hlinked : ∀ c, t'.live c → c ≠ t.root → ∃ d s a, t'.entry d s = some (c, a)) :
    WellFormed t' where
  root_live := hroot ▸ hlive
  root_dir := hroot ▸ hdir
  source d s c a he := ⟨(hsub d s c a he).2.1, (hsub d s c a he).2.2.1⟩
  target d s c a he := ⟨(hsub d s c a he).2.2.2, hroot ▸ (h.target d s c a (hsub d s c a he).1).2⟩
  unique _ _ _ _ _ _ _ he he' :=
    h.unique _ _ _ _ _ _ _ (hsub _ _ _ _ he).1 (hsub _ _ _ _ he').1
  names _ _ _ _ _ _ he he' := h.names _ _ _ _ _ _ (hsub _ _ _ _ he).1 (hsub _ _ _ _ he').1
  linked c hc hne := hlinked c hc (hroot ▸ hne)
  ranked := by
    obtain ⟨depth, hdepth⟩ := h.ranked
    exact ⟨depth, fun d s c a he => hdepth d s c a (hsub d s c a he).1⟩

/-- The same tree, in another representation. -/
theorem congr (hroot : t'.root = t.root) (hlive : ∀ n, t'.live n ↔ t.live n)
    (hdir : ∀ n, t.live n → (t'.dir n ↔ t.dir n)) (hentry : ∀ d s, t'.entry d s = t.entry d s) :
    WellFormed t' := by
  refine h.restrict hroot ((hlive _).mpr h.root_live) ((hdir _ h.root_live).mpr h.root_dir)
    (fun d s c a he => ?_) (fun c hc hne => ?_)
  · rw [hentry] at he
    obtain ⟨hl, hd⟩ := h.source d s c a he
    exact ⟨he, (hlive d).mpr hl, (hdir d hl).mpr hd, (hlive c).mpr (h.target d s c a he).1⟩
  · obtain ⟨d, s, a, he⟩ := h.linked c ((hlive c).mp hc) hne
    exact ⟨d, s, a, (hentry d s).trans he⟩

/-- A node that is not live has no entries, and no entry leads to it. -/
theorem entry_of_dead (hc : ¬t.live c) (s : σ) : t.entry c s = none := by
  cases he : t.entry c s with
  | none => rfl
  | some x => exact absurd (h.source c s x.1 x.2 he).1 hc

/-- A new node is entered into a directory. -/
theorem add (hroot : t'.root = t.root) (hlive : ∀ n, t'.live n ↔ t.live n ∨ n = c)
    (hdir : ∀ n, t.live n → (t'.dir n ↔ t.dir n)) (hnew : t'.entry d s = some (c, a))
    (hold : ∀ d' s', ¬(d' = d ∧ s' = s) → t'.entry d' s' = t.entry d' s') (hfresh : ¬t.live c)
    (hd : t.live d) (hdd : t.dir d) (hfree : t.entry d s = none)
    (hname : ∀ s' c', t.entry d s' ≠ some (c', a)) : WellFormed t' := by
  classical
  -- An entry of the new tree is the new one or an old one.
  have hcases : ∀ d' s' c' a', t'.entry d' s' = some (c', a') →
      (d' = d ∧ s' = s ∧ c' = c ∧ a' = a) ∨
        (¬(d' = d ∧ s' = s) ∧ t.entry d' s' = some (c', a')) := by
    intro d' s' c' a' he
    by_cases hds : d' = d ∧ s' = s
    · obtain ⟨rfl, rfl⟩ := hds
      have hpair := Option.some.inj (he.symm.trans hnew)
      exact .inl ⟨rfl, rfl, congrArg Prod.fst hpair, congrArg Prod.snd hpair⟩
    · exact .inr ⟨hds, (hold d' s' hds).symm.trans he⟩
  have hcr : c ≠ t.root := fun heq => hfresh (heq ▸ h.root_live)
  constructor
  case root_live => rw [hroot]; exact (hlive _).mpr (.inl h.root_live)
  case root_dir => rw [hroot]; exact (hdir _ h.root_live).mpr h.root_dir
  case source =>
    intro d' s' c' a' he
    rcases hcases d' s' c' a' he with ⟨rfl, _, _, _⟩ | ⟨_, hold⟩
    · exact ⟨(hlive _).mpr (.inl hd), (hdir _ hd).mpr hdd⟩
    · obtain ⟨hl, hdir'⟩ := h.source d' s' c' a' hold
      exact ⟨(hlive _).mpr (.inl hl), (hdir _ hl).mpr hdir'⟩
  case target =>
    intro d' s' c' a' he
    rw [hroot]
    rcases hcases d' s' c' a' he with ⟨_, _, rfl, _⟩ | ⟨_, hold⟩
    · exact ⟨(hlive _).mpr (.inr rfl), hcr⟩
    · obtain ⟨hl, hne⟩ := h.target d' s' c' a' hold
      exact ⟨(hlive _).mpr (.inl hl), hne⟩
  case unique =>
    intro d1 s1 d2 s2 c' a1 a2 h1 h2
    rcases hcases _ _ _ _ h1 with ⟨rfl, rfl, hc1, _⟩ | ⟨_, hold1⟩ <;>
      rcases hcases _ _ _ _ h2 with ⟨rfl, rfl, hc2, _⟩ | ⟨_, hold2⟩
    · exact ⟨rfl, rfl⟩
    · exact absurd (h.target _ _ _ _ hold2).1 (hc1 ▸ hfresh)
    · exact absurd (h.target _ _ _ _ hold1).1 (hc2 ▸ hfresh)
    · exact h.unique _ _ _ _ _ _ _ hold1 hold2
  case names =>
    intro d' s1 s2 c1 c2 a' h1 h2
    rcases hcases _ _ _ _ h1 with ⟨hd1, hs1, _, ha1⟩ | ⟨_, hold1⟩ <;>
      rcases hcases _ _ _ _ h2 with ⟨hd2, hs2, _, ha2⟩ | ⟨_, hold2⟩
    · exact hs1.trans hs2.symm
    · rw [hd1, ha1] at hold2
      exact absurd hold2 (hname _ _)
    · rw [hd2, ha2] at hold1
      exact absurd hold1 (hname _ _)
    · exact h.names _ _ _ _ _ _ hold1 hold2
  case linked =>
    intro c' hc' hne
    rw [hroot] at hne
    rcases (hlive c').mp hc' with hl | rfl
    · obtain ⟨d', s', a', he⟩ := h.linked c' hl hne
      have hds : ¬(d' = d ∧ s' = s) := by
        rintro ⟨rfl, rfl⟩
        cases hfree.symm.trans he
      exact ⟨d', s', a', (hold d' s' hds).trans he⟩
    · exact ⟨d, s, a, hnew⟩
  case ranked =>
    obtain ⟨depth, hdepth⟩ := h.ranked
    refine ⟨fun n => if n = c then depth d + 1 else depth n, ?_⟩
    intro d' s' c' a' he
    rcases hcases d' s' c' a' he with ⟨rfl, _, rfl, _⟩ | ⟨_, hold⟩
    · have hdc : d' ≠ c' := fun heq => hfresh (heq ▸ hd)
      simp [hdc]
    · have hc'c : c' ≠ c := fun heq => hfresh (heq ▸ (h.target _ _ _ _ hold).1)
      have hd'c : d' ≠ c := fun heq => hfresh (heq ▸ (h.source _ _ _ _ hold).1)
      simp only [hc'c, hd'c, if_false]
      exact hdepth _ _ _ _ hold

/-- The entry of a node without entries is removed, and the node with it. -/
theorem remove (hroot : t'.root = t.root) (hlive : ∀ n, t'.live n ↔ t.live n ∧ n ≠ c)
    (hdir : ∀ n, t.live n → n ≠ c → (t'.dir n ↔ t.dir n)) (he : t.entry d s = some (c, a))
    (hgone : t'.entry d s = none)
    (hold : ∀ d' s', ¬(d' = d ∧ s' = s) → t'.entry d' s' = t.entry d' s')
    (hempty : ∀ s', t.entry c s' = none) : WellFormed t' := by
  obtain ⟨_, hcr⟩ := h.target d s c a he
  refine h.restrict hroot ((hlive _).mpr ⟨h.root_live, hcr.symm⟩)
    ((hdir _ h.root_live hcr.symm).mpr h.root_dir) (fun d' s' c' a' he' => ?_)
    (fun c' hc' hne => ?_)
  · -- An entry of the new tree is an old one, and not the one of `c`.
    have hds : ¬(d' = d ∧ s' = s) := by
      rintro ⟨rfl, rfl⟩
      cases hgone.symm.trans he'
    have hold' := (hold d' s' hds).symm.trans he'
    have hcc : c' ≠ c := by
      rintro rfl
      exact hds (h.unique _ _ _ _ _ _ _ hold' he)
    have hdc : d' ≠ c := by
      rintro rfl
      cases (hempty s').symm.trans hold'
    obtain ⟨hl, hd⟩ := h.source d' s' c' a' hold'
    exact ⟨hold', (hlive _).mpr ⟨hl, hdc⟩, (hdir _ hl hdc).mpr hd,
      (hlive _).mpr ⟨(h.target d' s' c' a' hold').1, hcc⟩⟩
  · obtain ⟨hl, hcc⟩ := (hlive c').mp hc'
    obtain ⟨d', s', a', he'⟩ := h.linked c' hl hne
    have hds : ¬(d' = d ∧ s' = s) := by
      rintro ⟨rfl, rfl⟩
      exact hcc (congrArg Prod.fst (Option.some.inj (he'.symm.trans he)))
    exact ⟨d', s', a', (hold d' s' hds).trans he'⟩

/-- A node without entries gets another entry for its own: it is removed and entered
again. -/
theorem move {d' : ν} {s' : σ} {a' : α} (hroot : t'.root = t.root)
    (hlive : ∀ n, t'.live n ↔ t.live n) (hdir : ∀ n, t.live n → (t'.dir n ↔ t.dir n))
    (he : t.entry d s = some (c, a)) (hnew : t'.entry d' s' = some (c, a'))
    (hgone : ¬(d = d' ∧ s = s') → t'.entry d s = none)
    (hold : ∀ e r, ¬(e = d ∧ r = s) → ¬(e = d' ∧ r = s') → t'.entry e r = t.entry e r)
    (hempty : ∀ r, t.entry c r = none) (hd : t.live d') (hdd : t.dir d') (hne : d' ≠ c)
    (hfree : t.entry d' s' = none ∨ (d' = d ∧ s' = s))
    (hname : ∀ r c', t.entry d' r ≠ some (c', a')) : WellFormed t' := by
  classical
  -- The tree in between.
  let mid : NameTree ν σ α :=
    { root := t.root
      live := fun n => t.live n ∧ n ≠ c
      dir := t.dir
      entry := fun e r => if e = d ∧ r = s then none else t.entry e r }
  have hmid : WellFormed mid :=
    h.remove rfl (fun _ => Iff.rfl) (fun _ _ _ => Iff.rfl) he (if_pos ⟨rfl, rfl⟩)
      (fun e r hne => if_neg hne) hempty
  have hc := (h.target d s c a he).1
  refine hmid.add (d := d') (s := s') (c := c) (a := a') hroot ?_ ?_ hnew ?_ ?_ ⟨hd, hne⟩ hdd ?_ ?_
  · intro n
    by_cases hnc : n = c
    · subst hnc
      exact ⟨fun _ => .inr rfl, fun _ => (hlive n).mpr hc⟩
    · rw [hlive n]
      exact ⟨fun hl => .inl ⟨hl, hnc⟩, fun hl => (hl.resolve_right hnc).1⟩
  · exact fun n hn => hdir n hn.1
  · intro e r her
    by_cases hds : e = d ∧ r = s
    · obtain ⟨rfl, rfl⟩ := hds
      exact (hgone her).trans (if_pos ⟨rfl, rfl⟩).symm
    · exact (hold e r hds her).trans (if_neg hds).symm
  · exact fun hl => hl.2 rfl
  · show (if d' = d ∧ s' = s then none else t.entry d' s') = none
    split
    · rfl
    · rename_i hds
      exact hfree.resolve_right hds
  · intro r c' hr
    have hr : (if d' = d ∧ r = s then none else t.entry d' r) = some (c', a') := hr
    split at hr
    · cases hr
    · exact hname r c' hr

end WellFormed

end

end NameTree

end BigOS.Lib
