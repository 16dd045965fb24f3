/-
  BigOS.Lib.Radix — radix trees stored as rows of descriptors.

  A forest is a set of nodes of known height, each with a row of slots.  The
  row of a node of height `k + 1` leads to nodes of height `k`; the row of a
  node of height 0 holds the values.  `WellFormed` says that the nodes are the
  tree below one root, and the lemmas say what the four elementary changes
  (hang an empty node, cut an empty node off, write a value, relabel a link)
  do to it and to `find`, the value a path of indices leads to.

  Main results:
    • `WellFormed.attach`, `.detach`, `.setLeaf`,
    • `find_attach`, `find_detach`, `find_setLeaf`, `find_relabel`,
    • `follow_attach` — paths survive,
    • `WellFormed.follow_inj` — a node is reached by one path only.
-/
import Mathlib.Data.List.Induction
import Mathlib.Data.Option.Basic

namespace BigOS.Lib.Radix

variable {p q : List Nat} {k j : Nat}

/-- Nodes with their heights, and the row of slots of each node. -/
@[ext]
structure Forest (ν δ : Type) where
  height : ν → Option Nat
  row : ν → Nat → Option δ

variable {ν δ : Type} {target : δ → ν} {g f : ν} {F : Forest ν δ}

namespace Forest

/-- The node a path of indices leads to. -/
def follow (target : δ → ν) (F : Forest ν δ) : List Nat → ν → Option ν
  | [], f => some f
  | i :: p, f => (F.row f i).bind fun d => follow target F p (target d)

/-- The descriptor at the end of a path of indices. -/
def find (target : δ → ν) (F : Forest ν δ) : List Nat → ν → Option δ
  | [], _ => none
  | [i], f => F.row f i
  | i :: j :: p, f => (F.row f i).bind fun d => find target F (j :: p) (target d)

/-- Hang the empty node `target d` of height `k` into slot `i` of `f`. -/
def attach [DecidableEq ν] (target : δ → ν) (F : Forest ν δ) (f : ν) (i : Nat) (d : δ) (k : Nat) :
    Forest ν δ where
  height := Function.update F.height (target d) (some k)
  row := Function.update (Function.update F.row (target d) (fun _ => none)) f
    (Function.update (F.row f) i (some d))

/-- Cut the node `g` off slot `i` of `f`. -/
def detach [DecidableEq ν] (F : Forest ν δ) (f : ν) (i : Nat) (g : ν) : Forest ν δ where
  height := Function.update F.height g none
  row := Function.update F.row f (Function.update (F.row f) i none)

/-- Write one slot. -/
def write [DecidableEq ν] (F : Forest ν δ) (f : ν) (i : Nat) (o : Option δ) : Forest ν δ where
  height := F.height
  row := Function.update F.row f (Function.update (F.row f) i o)

/-- How many nodes of a path are not there yet. -/
def missing (target : δ → ν) (F : Forest ν δ) : List Nat → ν → Nat
  | [], _ => 0
  | i :: p, f =>
    match F.row f i with
    | none => p.length + 1
    | some d => missing target F p (target d)

theorem find_cons (F : Forest ν δ) (i : Nat) (hp : p ≠ []) (f : ν) :
    F.find target (i :: p) f = (F.row f i).bind fun d => F.find target p (target d) := by
  cases p with
  | nil => exact absurd rfl hp
  | cons => rfl

theorem follow_append (F : Forest ν δ) (p q : List Nat) (f : ν) :
    F.follow target (p ++ q) f = (F.follow target p f).bind (F.follow target q) := by
  induction p generalizing f with
  | nil => rfl
  | cons i p ih =>
    show (F.row f i).bind _ = ((F.row f i).bind _).bind _
    rw [Option.bind_assoc]
    congr 1
    funext d
    exact ih (target d)

theorem find_append (F : Forest ν δ) (p : List Nat) (hq : q ≠ []) (f : ν) :
    F.find target (p ++ q) f = (F.follow target p f).bind (F.find target q) := by
  induction p generalizing f with
  | nil => rfl
  | cons i p ih =>
    rw [List.cons_append, find_cons F i (by simp [hq]) f]
    show _ = ((F.row f i).bind _).bind _
    rw [Option.bind_assoc]
    congr 1
    funext d
    exact ih (target d)

/-- Nothing is found below a node with an empty row. -/
theorem find_eq_none_of_row (h : ∀ i, F.row f i = none) (p : List Nat) :
    F.find target p f = none := by
  cases p with
  | nil => rfl
  | cons i p =>
    cases p with
    | nil => exact h i
    | cons =>
      rw [find_cons F i (by simp) f, h i]
      rfl

theorem missing_cons_none {i : Nat} (h : F.row f i = none)
    (p : List Nat) : F.missing target (i :: p) f = p.length + 1 := by
  unfold missing
  rw [h]

theorem missing_cons_some {i : Nat} {d : δ} (h : F.row f i = some d)
    (p : List Nat) : F.missing target (i :: p) f = F.missing target p (target d) := by
  show (match F.row f i with
    | none => p.length + 1
    | some d => F.missing target p (target d)) = _
  rw [h]

theorem missing_le (F : Forest ν δ) (p : List Nat) (f : ν) : F.missing target p f ≤ p.length := by
  induction p generalizing f with
  | nil => exact Nat.le_refl _
  | cons i p ih =>
    unfold missing
    cases F.row f i with
    | none => exact Nat.le_refl _
    | some d => exact Nat.le_succ_of_le (ih (target d))

/-- Where a path begins with nodes that are there, only the rest can be missing. -/
theorem missing_append_le (hp : F.follow target p f = some g) :
    F.missing target (p ++ q) f ≤ q.length := by
  induction p generalizing f with
  | nil => exact missing_le F q f
  | cons i p ih =>
    obtain ⟨d, hd, hp⟩ := Option.bind_eq_some_iff.mp hp
    show F.missing target (i :: (p ++ q)) f ≤ q.length
    rw [missing_cons_some hd]
    exact ih hp

end Forest

open Forest

/-- The nodes of `F` are the tree of height `top` below `root`. -/
structure WellFormed (target : δ → ν) (root : ν) (top : Nat) (F : Forest ν δ) : Prop where
  atRoot : F.height root = some top
  le : ∀ g k, F.height g = some k → k ≤ top
  only : ∀ g, F.height g = some top → g = root
  child : ∀ f k i d, F.height f = some (k + 1) → F.row f i = some d → F.height (target d) = some k
  parent : ∀ g k, F.height g = some k → k < top →
    ∃ f i d, F.height f = some (k + 1) ∧ F.row f i = some d ∧ target d = g
  unique : ∀ f f' k i i' d d', F.height f = some (k + 1) → F.height f' = some (k + 1) →
    F.row f i = some d → F.row f' i' = some d' → target d = target d' → f = f' ∧ i = i'

section Paths

variable {root : ν} {top : Nat} {F : Forest ν δ} {d' : δ}

namespace WellFormed

section

variable (h : WellFormed target root top F)

include h

theorem height_follow (hf : F.height f = some (p.length + k)) (hg : F.follow target p f = some g) :
    F.height g = some k := by
  induction p generalizing f with
  | nil =>
    obtain rfl : f = g := Option.some.inj hg
    simpa using hf
  | cons i p ih =>
    obtain ⟨d, hd, hg⟩ := Option.bind_eq_some_iff.mp hg
    have hf' : F.height f = some (p.length + k + 1) := by
      rw [hf, List.length_cons]
      congr 1
      omega
    exact ih (h.child f _ i d hf' hd) hg

/-- Two paths of one length that lead to one node are the same path. -/
theorem follow_inj
    (hlen : p.length = q.length) (htop : p.length ≤ top) (hp : F.follow target p root = some g)
    (hq : F.follow target q root = some g) : p = q := by
  -- Induction on the last step: the slot that holds `g` is unique.
  induction p using List.reverseRecOn generalizing q g with
  | nil =>
    symm
    simpa using hlen.symm
  | append_singleton p i ih =>
    cases q using List.reverseRecOn with
    | nil => simp at hlen
    | append_singleton q j =>
      simp only [List.length_append, List.length_singleton, Nat.add_right_cancel_iff] at hlen htop
      rw [follow_append] at hp hq
      obtain ⟨f, hf, hp⟩ := Option.bind_eq_some_iff.mp hp
      obtain ⟨f', hf', hq⟩ := Option.bind_eq_some_iff.mp hq
      obtain ⟨d, hd, hdg⟩ := Option.bind_eq_some_iff.mp hp
      obtain ⟨d', hd', hdg'⟩ := Option.bind_eq_some_iff.mp hq
      have hheight : F.height f = some (top - p.length - 1 + 1) := by
        apply h.height_follow (f := root) (p := p) _ hf
        rw [h.atRoot]
        congr 1
        omega
      have hheight' : F.height f' = some (top - p.length - 1 + 1) := by
        apply h.height_follow (f := root) (p := q) _ hf'
        rw [h.atRoot]
        congr 1
        omega
      have hsame : target d = target d' := (Option.some.inj hdg).trans (Option.some.inj hdg').symm
      obtain ⟨rfl, rfl⟩ := h.unique f f' _ i j d d' hheight hheight' hd hd' hsame
      rw [ih hlen (by omega) hf hf']

/-- A path only depends on the rows it passes. -/
theorem follow_congr {F' : Forest ν δ}
    (hrow : ∀ g j i, F.height g = some j → k < j → F'.row g i = F.row g i)
    (hf : F.height f = some (p.length + k)) : F'.follow target p f = F.follow target p f := by
  induction p generalizing f with
  | nil => rfl
  | cons i p ih =>
    have hf' : F.height f = some (p.length + k + 1) := by
      rw [hf, List.length_cons]
      congr 1
      omega
    show (F'.row f i).bind _ = (F.row f i).bind _
    rw [hrow f _ i hf' (by omega)]
    cases hd : F.row f i with
    | none => rfl
    | some d => exact ih (h.child f _ i d hf' hd)

end

/-- Nodes of different heights are different nodes. -/
theorem ne_of_height (hf : F.height f = some j) (hg : F.height g = some k)
    (hjk : j ≠ k) : f ≠ g := by
  rintro rfl
  exact hjk (Option.some.inj (hf.symm.trans hg))

/-- Of the rows only those of inner nodes matter, and of those only where they lead. -/
theorem congr (h : WellFormed target root top F) {row : ν → Nat → Option δ}
    (hrow : ∀ g k j, F.height g = some (k + 1) → (row g j).map target = (F.row g j).map target) :
    WellFormed target root top ⟨F.height, row⟩ := by
  have hback : ∀ g k j d, F.height g = some (k + 1) → row g j = some d →
      ∃ e, F.row g j = some e ∧ target e = target d := by
    intro g k j d hg hr
    have hsame := hrow g k j hg
    rw [hr, Option.map_some] at hsame
    exact Option.map_eq_some_iff.mp hsame.symm
  refine ⟨h.atRoot, h.le, h.only, ?child, ?parent, ?unique⟩
  case child =>
    intro g k j d hg hr
    obtain ⟨e, hr', heq⟩ := hback g k j d hg hr
    exact heq ▸ h.child g k j e hg hr'
  case parent =>
    intro g k hg hk
    obtain ⟨g', j, d, hg', hr, htarget⟩ := h.parent g k hg hk
    have hsame := hrow g' k j hg'
    rw [hr, Option.map_some] at hsame
    obtain ⟨e, hr', heq⟩ := Option.map_eq_some_iff.mp hsame
    exact ⟨g', j, e, hg', hr', heq.trans htarget⟩
  case unique =>
    intro g g' k i1 i2 d1 d2 hg hg' hr1 hr2 htarget
    obtain ⟨e1, hr₁', heq1⟩ := hback g k i1 d1 hg hr1
    obtain ⟨e2, hr₂', heq2⟩ := hback g' k i2 d2 hg' hr2
    exact h.unique g g' k i1 i2 e1 e2 hg hg' hr₁' hr₂' (by rw [heq1, heq2, htarget])

end WellFormed

/-- So do the paths. -/
theorem follow_of_targets {F' : Forest ν δ}
    (hrow : ∀ g j, (F'.row g j).map target = (F.row g j).map target) (p : List Nat) (g : ν) :
    F'.follow target p g = F.follow target p g ∧ F'.missing target p g = F.missing target p g := by
  induction p generalizing g with
  | nil => exact ⟨rfl, rfl⟩
  | cons i p ih =>
    have hsame := hrow g i
    unfold follow missing
    cases hold : F.row g i with
    | none =>
      rw [hold, Option.map_none, Option.map_eq_none_iff] at hsame
      rw [hsame]
      exact ⟨rfl, rfl⟩
    | some d =>
      rw [hold, Option.map_some, Option.map_eq_some_iff] at hsame
      obtain ⟨e, he, htarget⟩ := hsame
      rw [he]
      simp only [Option.bind_some, htarget]
      exact ih (target d)

end Paths

section Changes

variable [DecidableEq ν] {root : ν} {top : Nat} {F : Forest ν δ} {f : ν} {i k : Nat} {d : δ}

/-! ## §1. The rows and heights after a change. -/

theorem row_attach_self (F : Forest ν δ) (f : ν) (i : Nat) (d : δ) (k : Nat) :
    (F.attach target f i d k).row f i = some d := by
  simp [attach]

theorem row_attach_new (hne : target d ≠ f) (j : Nat) :
    (F.attach target f i d k).row (target d) j = none := by
  simp [attach, Function.update_of_ne hne]

theorem row_attach_of_ne (hg : g ≠ target d) (hne : ¬(g = f ∧ j = i)) :
    (F.attach target f i d k).row g j = F.row g j := by
  by_cases hgf : g = f
  · subst hgf
    have hj : j ≠ i := fun hj => hne ⟨rfl, hj⟩
    simp [attach, Function.update_of_ne hj]
  · simp [attach, Function.update_of_ne hgf, Function.update_of_ne hg]

theorem height_attach_of_ne (hg : g ≠ target d) : (F.attach target f i d k).height g = F.height g :=
  Function.update_of_ne hg _ _

theorem height_attach_new : (F.attach target f i d k).height (target d) = some k :=
  Function.update_self _ _ _

theorem row_write_self (F : Forest ν δ) (f : ν) (i : Nat) (o : Option δ) :
    (F.write f i o).row f i = o := by
  simp [write]

theorem row_write_of_ne {o : Option δ} (hne : ¬(g = f ∧ j = i)) :
    (F.write f i o).row g j = F.row g j := by
  by_cases hgf : g = f
  · subst hgf
    have hj : j ≠ i := fun hj => hne ⟨rfl, hj⟩
    simp [write, Function.update_of_ne hj]
  · simp [write, Function.update_of_ne hgf]

theorem row_detach (F : Forest ν δ) (f : ν) (i : Nat) (g : ν) :
    (F.detach f i g).row = (F.write f i none).row := rfl

theorem height_detach_of_ne {g' : ν} (hg : g ≠ g') : (F.detach f i g').height g = F.height g :=
  Function.update_of_ne hg _ _

theorem height_detach_self (F : Forest ν δ) (f : ν) (i : Nat) (g : ν) :
    (F.detach f i g).height g = none :=
  Function.update_self _ _ _

/-! ## §2. Hanging an empty node. -/

/-- The slots of an attached forest: the new one, or an old one. -/
theorem row_attach_cases (hne : target d ≠ f) (hrow : (F.attach target f i d k).row g j = some d') :
    (g = f ∧ j = i ∧ d' = d) ∨ (g ≠ target d ∧ ¬(g = f ∧ j = i) ∧ F.row g j = some d') := by
  by_cases hself : g = f ∧ j = i
  · obtain ⟨rfl, rfl⟩ := hself
    rw [row_attach_self] at hrow
    exact .inl ⟨rfl, rfl, (Option.some.inj hrow).symm⟩
  by_cases hg : g = target d
  · subst hg
    rw [row_attach_new hne] at hrow
    cases hrow
  · rw [row_attach_of_ne hg hself] at hrow
    exact .inr ⟨hg, hself, hrow⟩

section

variable (h : WellFormed target root top F) (hf : F.height f = some (k + 1))

include h hf

theorem WellFormed.attach (hi : F.row f i = none) (hd : F.height (target d) = none) :
    WellFormed target root top (F.attach target f i d k) := by
  have hne : target d ≠ f := fun heq => by rw [heq, hf] at hd; cases hd
  have hroot : root ≠ target d := fun heq => by
    rw [← heq, h.atRoot] at hd
    cases hd
  have hk : k + 1 ≤ top := h.le f _ hf
  -- Of the heights only that of the new node is new.
  have hheight : ∀ g j, (F.attach target f i d k).height g = some j →
      (g = target d ∧ j = k) ∨ (g ≠ target d ∧ F.height g = some j) := by
    intro g j hg
    by_cases hgd : g = target d
    · subst hgd
      rw [height_attach_new] at hg
      exact .inl ⟨rfl, (Option.some.inj hg).symm⟩
    · rw [height_attach_of_ne hgd] at hg
      exact .inr ⟨hgd, hg⟩
  have hold : ∀ g j, F.height g = some j → g ≠ target d := by
    rintro g j hg rfl
    rw [hd] at hg
    cases hg
  refine ⟨?atRoot, ?le, ?only, ?child, ?parent, ?unique⟩
  case atRoot => rw [height_attach_of_ne hroot, h.atRoot]
  case le =>
    intro g j hg
    rcases hheight g j hg with ⟨_, rfl⟩ | ⟨_, hg⟩
    · omega
    · exact h.le g j hg
  case only =>
    intro g hg
    rcases hheight g top hg with ⟨_, htop⟩ | ⟨_, hg⟩
    · omega
    · exact h.only g hg
  case child =>
    intro g j i' d' hg hrow
    rcases row_attach_cases hne hrow with ⟨rfl, rfl, rfl⟩ | ⟨hgd, _, hrow⟩
    · rw [height_attach_of_ne hne.symm, hf] at hg
      rw [height_attach_new]
      simpa using hg
    · rw [height_attach_of_ne hgd] at hg
      have hc := h.child g j i' d' hg hrow
      rw [height_attach_of_ne (hold _ _ hc), hc]
  case parent =>
    intro g j hg hj
    rcases hheight g j hg with ⟨rfl, rfl⟩ | ⟨_, hg⟩
    · exact ⟨f, i, d, by rw [height_attach_of_ne hne.symm, hf], row_attach_self F f i d j, rfl⟩
    obtain ⟨g', i', d', hg', hrow, htarget⟩ := h.parent g j hg hj
    have hold' := hold g' _ hg'
    refine ⟨g', i', d', by rw [height_attach_of_ne hold', hg'], ?_, htarget⟩
    rw [row_attach_of_ne hold', hrow]
    rintro ⟨rfl, rfl⟩
    rw [hi] at hrow
    cases hrow
  case unique =>
    intro g g' j i1 i2 d1 d2 hg hg' hrow1 hrow2 htarget
    -- An old slot leads to an old node, never to the new one.
    have hlead : ∀ g i' d', g ≠ target d → (F.attach target f i d k).height g = some (j + 1) →
        F.row g i' = some d' → target d' ≠ target d := by
      intro g i' d' hgd hg hrow
      rw [height_attach_of_ne hgd] at hg
      exact hold _ _ (h.child g j i' d' hg hrow)
    rcases row_attach_cases hne hrow1 with ⟨hgf, hi1, hd1⟩ | ⟨hgd, _, hrow1⟩
    · rcases row_attach_cases hne hrow2 with ⟨hgf', hi2, _⟩ | ⟨hgd', _, hrow2⟩
      · exact ⟨hgf.trans hgf'.symm, hi1.trans hi2.symm⟩
      · exact absurd (htarget.symm.trans (congrArg target hd1)) (hlead g' i2 d2 hgd' hg' hrow2)
    rcases row_attach_cases hne hrow2 with ⟨_, _, hd2⟩ | ⟨hgd', _, hrow2⟩
    · exact absurd (htarget.trans (congrArg target hd2)) (hlead g i1 d1 hgd hg hrow1)
    · rw [height_attach_of_ne hgd] at hg
      rw [height_attach_of_ne hgd'] at hg'
      exact h.unique g g' j i1 i2 d1 d2 hg hg' hrow1 hrow2 htarget

/-- Lookups agree in a forest whose rows differ in one slot, above the leaves, through which
neither finds anything. -/
theorem find_congr {F' : Forest ν δ}
    (hrows : ∀ g j i', F.height g = some j → ¬(g = f ∧ i' = i) → F'.row g i' = F.row g i')
    (hslot : ∀ p, p ≠ [] → F'.find target (i :: p) f = F.find target (i :: p) f)
    (hg : F.height g = some j) (hp : p.length = j + 1) :
    F'.find target p g = F.find target p g := by
  induction p generalizing g j with
  | nil => rfl
  | cons i' p ih =>
    cases p with
    | nil =>
      obtain rfl : j = 0 := by simpa using hp.symm
      have hgf : g ≠ f := WellFormed.ne_of_height hg hf (by omega)
      exact hrows g 0 i' hg (fun hself => hgf hself.1)
    | cons =>
      by_cases hself : g = f ∧ i' = i
      · obtain ⟨rfl, rfl⟩ := hself
        exact hslot _ (by simp)
      rw [find_cons _ i' (by simp), find_cons _ i' (by simp), hrows g j i' hg hself]
      cases hrow : F.row g i' with
      | none => rfl
      | some d' =>
        obtain ⟨j, rfl⟩ : ∃ j', j = j' + 1 := ⟨j - 1, by simp at hp; omega⟩
        exact ih (h.child g j i' d' hg hrow) (by simpa using hp)

/-- An empty node holds no value, so hanging it changes no lookup. -/
theorem find_attach (hi : F.row f i = none) (hd : F.height (target d) = none)
    (hg : F.height g = some j) (hp : p.length = j + 1) :
    (F.attach target f i d k).find target p g = F.find target p g := by
  have hne : target d ≠ f := fun heq => by rw [heq, hf] at hd; cases hd
  have hold : ∀ g j, F.height g = some j → g ≠ target d := by
    rintro g j hg rfl
    rw [hd] at hg
    cases hg
  refine find_congr h hf (fun g j i' hg hself => row_attach_of_ne (hold g j hg) hself)
    (fun p hp => ?_) hg hp
  -- The path enters the new node: nothing was there, nothing is below.
  rw [find_cons _ i hp, find_cons _ i hp, row_attach_self, hi]
  exact find_eq_none_of_row (row_attach_new hne) _

end

/-- A path stays where it led when a node is hung. -/
theorem follow_attach (h : WellFormed target root top F) (hi : F.row f i = none)
    (hd : F.height (target d) = none) {x : ν} (hg : F.height g = some (p.length + j))
    (hx : F.follow target p g = some x) : (F.attach target f i d k).follow target p g = some x := by
  induction p generalizing g with
  | nil => exact hx
  | cons i' p ih =>
    obtain ⟨e, he, hx⟩ := Option.bind_eq_some_iff.mp hx
    have hg' : F.height g = some (p.length + j + 1) := by
      rw [hg, List.length_cons]
      congr 1
      omega
    have hgd : g ≠ target d := fun heq => by
      rw [heq, hd] at hg
      cases hg
    have hself : ¬(g = f ∧ i' = i) := fun hself => by
      rw [hself.1, hself.2, hi] at he
      cases he
    show ((F.attach target f i d k).row g i').bind _ = some x
    rw [row_attach_of_ne hgd hself, he]
    exact ih (h.child g _ i' e hg' he) hx

/-! ## §3. Cutting an empty node off. -/

section

variable (h : WellFormed target root top F) (hf : F.height f = some (k + 1))
  (hd : F.row f i = some d) (hempty : ∀ j, F.row (target d) j = none)

include h hf hd hempty

theorem WellFormed.detach : WellFormed target root top (F.detach f i (target d)) := by
  have hchild := h.child f k i d hf hd
  have hk : k + 1 ≤ top := h.le f _ hf
  have hroot : root ≠ target d := WellFormed.ne_of_height h.atRoot hchild (by omega)
  have hheight : ∀ g j, (F.detach f i (target d)).height g = some j →
      g ≠ target d ∧ F.height g = some j := by
    intro g j hg
    by_cases hgd : g = target d
    · subst hgd
      rw [height_detach_self] at hg
      cases hg
    · rw [height_detach_of_ne hgd] at hg
      exact ⟨hgd, hg⟩
  have hrow : ∀ g j d', (F.detach f i (target d)).row g j = some d' →
      ¬(g = f ∧ j = i) ∧ F.row g j = some d' := by
    intro g j d' hg
    rw [row_detach] at hg
    by_cases hself : g = f ∧ j = i
    · obtain ⟨rfl, rfl⟩ := hself
      rw [row_write_self] at hg
      cases hg
    · rw [row_write_of_ne hself] at hg
      exact ⟨hself, hg⟩
  refine ⟨?atRoot, ?le, ?only, ?child, ?parent, ?unique⟩
  case atRoot => rw [height_detach_of_ne hroot, h.atRoot]
  case le => exact fun g j hg => h.le g j (hheight g j hg).2
  case only => exact fun g hg => h.only g (hheight g top hg).2
  case child =>
    intro g j i' d' hg hr
    obtain ⟨_, hg⟩ := hheight g _ hg
    obtain ⟨hself, hr⟩ := hrow g i' d' hr
    have hc := h.child g j i' d' hg hr
    have hcd : target d' ≠ target d := by
      intro heq
      have hjk : j = k := by
        rw [heq, hchild] at hc
        exact (Option.some.inj hc).symm
      subst hjk
      exact hself (h.unique g f j i' i d' d hg hf hr hd heq)
    rw [height_detach_of_ne hcd, hc]
  case parent =>
    intro g j hg hj
    obtain ⟨hgd, hg⟩ := hheight g j hg
    obtain ⟨g', i', d', hg', hr, htarget⟩ := h.parent g j hg hj
    have hg'd : g' ≠ target d := by
      rintro rfl
      rw [hempty] at hr
      cases hr
    refine ⟨g', i', d', by rw [height_detach_of_ne hg'd, hg'], ?_, htarget⟩
    rw [row_detach, row_write_of_ne, hr]
    rintro ⟨rfl, rfl⟩
    rw [hd] at hr
    exact hgd ((Option.some.inj hr ▸ htarget).symm)
  case unique =>
    intro g g' j i1 i2 d1 d2 hg hg' hr1 hr2 htarget
    exact h.unique g g' j i1 i2 d1 d2 (hheight g _ hg).2 (hheight g' _ hg').2
      (hrow g i1 d1 hr1).2 (hrow g' i2 d2 hr2).2 htarget

theorem find_detach (hg : F.height g = some j) (hp : p.length = j + 1) :
    (F.detach f i (target d)).find target p g = F.find target p g := by
  refine find_congr (i := i) h hf (fun g j i' _ hself => ?_) (fun p hp => ?_) hg hp
  · rw [row_detach, row_write_of_ne hself]
  · rw [find_cons _ i hp, find_cons _ i hp, row_detach, row_write_self, hd]
    exact (find_eq_none_of_row hempty _).symm

end

/-- Cutting off what was just hung gives the forest back. -/
theorem detach_attach (hi : F.row f i = none) (hd : F.height (target d) = none)
    (hrow : ∀ j, F.row (target d) j = none) (hne : target d ≠ f) :
    (F.attach target f i d k).detach f i (target d) = F := by
  apply Forest.ext
  · funext g
    by_cases hg : g = target d
    · subst hg
      rw [height_detach_self, hd]
    · rw [height_detach_of_ne hg, height_attach_of_ne hg]
  · funext g j
    rw [row_detach]
    by_cases hself : g = f ∧ j = i
    · obtain ⟨rfl, rfl⟩ := hself
      rw [row_write_self, hi]
    rw [row_write_of_ne hself]
    by_cases hg : g = target d
    · subst hg
      rw [row_attach_new hne, hrow]
    · rw [row_attach_of_ne hg hself]

/-! ## §4. Writing a value. -/

section

variable (h : WellFormed target root top F) (hf : F.height f = some 0) (o : Option δ)

include h hf o

theorem WellFormed.setLeaf : WellFormed target root top (F.write f i o) :=
  h.congr fun _ _ _ hg => congrArg (Option.map target)
    (row_write_of_ne fun hself => WellFormed.ne_of_height hg hf (by omega) hself.1)

theorem follow_write (hg : F.height g = some (p.length + j)) :
    (F.write f i o).follow target p g = F.follow target p g :=
  h.follow_congr (fun _ _ _ hg' hj =>
    row_write_of_ne fun hself => WellFormed.ne_of_height hg' hf (by omega) hself.1) hg

end

theorem exists_concat (h : p.length = k + 1) : ∃ q j, p = q ++ [j] := by
  cases p using List.reverseRecOn with
  | nil => cases h
  | append_singleton q j => exact ⟨q, j, rfl⟩

/-- Writing a value changes the lookup of its own path only. -/
theorem find_setLeaf (h : WellFormed target root top F) (o : Option δ)
    (hf : F.follow target p root = some f) (hp : p.length = top) (hq : q.length = top + 1) :
    (F.write f i o).find target q root = if q = p ++ [i] then o else F.find target q root := by
  have hf0 : F.height f = some 0 := h.height_follow (f := root) (by rw [h.atRoot, hp]; simp) hf
  obtain ⟨q, j, rfl⟩ := exists_concat hq
  have hq' : q.length = top := by simpa using hq
  rw [find_append _ q (by simp), find_append _ q (by simp),
    follow_write h hf0 o (j := 0) (by rw [h.atRoot, hq']; simp)]
  by_cases hqp : q = p
  · subst hqp
    rw [hf]
    show (F.write f i o).row f j = if q ++ [j] = q ++ [i] then o else F.row f j
    by_cases hj : j = i
    · subst hj
      rw [row_write_self, if_pos rfl]
    · rw [row_write_of_ne (fun hself => hj hself.2), if_neg (by simpa using hj)]
  · have hother : q ++ [j] ≠ p ++ [i] := fun heq => hqp (List.append_inj_left' heq rfl)
    rw [if_neg hother]
    cases hg : F.follow target q root with
    | none => rfl
    | some g =>
      have hgf : g ≠ f := by
        rintro rfl
        exact hqp (h.follow_inj (hq'.trans hp.symm) (Nat.le_of_eq hq') hg hf)
      exact row_write_of_ne (fun hself => hgf hself.1)

/-! ## §5. Relabelling a link. -/

theorem row_relabel (hd : F.row f i = some d) (hsame : target d' = target d) (g : ν)
    (j : Nat) : ((F.write f i (some d')).row g j).map target = (F.row g j).map target := by
  by_cases hself : g = f ∧ j = i
  · obtain ⟨rfl, rfl⟩ := hself
    rw [row_write_self, hd, Option.map_some, Option.map_some, hsame]
  · rw [row_write_of_ne hself]

theorem find_relabel (h : WellFormed target root top F) (hf : F.height f = some (k + 1))
    (hd : F.row f i = some d) (hsame : target d' = target d) (hp : p.length = top + 1) :
    (F.write f i (some d')).find target p root = F.find target p root := by
  obtain ⟨p, j, rfl⟩ := exists_concat hp
  rw [find_append _ p (by simp), find_append _ p (by simp),
    (follow_of_targets (row_relabel hd hsame) p root).1]
  cases hg : F.follow target p root with
  | none => rfl
  | some g =>
    have hg0 : F.height g = some 0 :=
      h.height_follow (f := root) (by rw [h.atRoot]; simpa using hp.symm) hg
    exact row_write_of_ne fun hself => WellFormed.ne_of_height hg0 hf (by omega) hself.1

end Changes

end BigOS.Lib.Radix
