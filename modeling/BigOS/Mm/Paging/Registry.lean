/-
  BigOS.Mm.Paging.Registry — what the primitives of the page-table code read
  and change.

  Every function of `BigOS.Mm.Paging.Model` above the primitives is reasoned
  about through `mem` (the descriptors) and `findTable` (the registry as a
  partial function), so each primitive is described by these two.
-/
import BigOS.Mm.Paging.Model

namespace BigOS.Mm.Paging

open List

namespace PagingState

variable {s s' : PagingState} {f g i j n root : Nat} {d : Descriptor} {md : PageTableMetadata}

/-! ## §1. Memory. -/

theorem mem_write (s : PagingState) (f i : Nat) (d : Descriptor) (g j : Nat) :
    (s.write f i d).mem g j = if g = f ∧ j = i then d else s.mem g j := by
  show Function.update s.mem f (Function.update (s.mem f) i d) g j = _
  by_cases hg : g = f
  · subst hg
    by_cases hj : j = i
    · subst hj
      simp
    · simp [hj]
  · simp [hg]

theorem mem_clearTable (s : PagingState) (f g j : Nat) :
    (s.clearTable f).mem g j = if g = f then Descriptor.zero else s.mem g j := by
  show Function.update s.mem f (fun _ => Descriptor.zero) g j = _
  by_cases hg : g = f
  · subst hg
    simp
  · simp [hg]

@[simp] theorem findTable_freeFrame : (s.freeFrame f).findTable g = s.findTable g := rfl

@[simp] theorem mem_setPresentEntries : (s.setPresentEntries f n).mem = s.mem := rfl

theorem mem_inUse_freeFrame : g ∈ (s.freeFrame f).inUse ↔ g ∈ s.inUse ∧ g ≠ f := by
  show g ∈ s.inUse.filter (· ≠ f) ↔ _
  simp

/-! ## §2. The registry as a partial function. -/

/-- The frames of the used slots. -/
def frames (s : PagingState) : List Nat := s.tables.map (·.framePhys)

theorem findTable_some (h : s.findTable f = some md) : md ∈ s.tables ∧ md.framePhys = f := by
  have h' : s.tables.find? (fun m => m.framePhys == f) = some md := h
  exact ⟨mem_of_find?_eq_some h', by simpa using List.find?_some h'⟩

theorem findTable_eq_none : s.findTable f = none ↔ f ∉ s.frames := by
  show s.tables.find? _ = none ↔ f ∉ s.tables.map _
  simp

/-- With distinct frames a used slot is what a search for its frame finds. -/
theorem findTable_of_mem (hs : s.frames.Nodup) (h : md ∈ s.tables) :
    s.findTable md.framePhys = some md := by
  cases hfind : s.findTable md.framePhys with
  | none => exact absurd (mem_map_of_mem h) (findTable_eq_none.mp hfind)
  | some =>
    obtain ⟨hmem, hframe⟩ := findTable_some hfind
    rw [inj_on_of_nodup_map hs hmem h hframe]

/-! ## §3. Registering and unregistering. -/

theorem registerTable_eq_some {owner : PageTableOwner} {level : PageTableLevel} :
    s.registerTable root f owner level = some s' ↔
      s.findTable f = none ∧ s.tables.length < PAGE_TABLE_METADATA_CAPACITY ∧
        s' = s.addSlot ⟨owner, level, root, f, 0⟩ := by
  unfold registerTable
  cases hf : s.findTable f with
  | some => simp
  | none =>
    by_cases hcap : s.tables.length < PAGE_TABLE_METADATA_CAPACITY
    · simp [hcap, eq_comm]
    · simp [hcap]

/-- The registry with one more slot. -/
theorem findTable_addSlot (new : PageTableMetadata) (hfree : s.findTable new.framePhys = none) :
    (s.addSlot new).findTable g =
      if g = new.framePhys then some new else s.findTable g := by
  show (s.tables ++ [new]).find? _ = _
  rw [List.find?_append]
  by_cases hg : g = new.framePhys
  · subst hg
    have hnone : s.tables.find? (fun m => m.framePhys == new.framePhys) = none := hfree
    rw [hnone, if_pos rfl]
    simp
  · rw [if_neg hg]
    have hnew : [new].find? (fun m => m.framePhys == g) = none := by
      simp [Ne.symm hg]
    rw [hnew, Option.or_none]
    rfl

theorem frames_addSlot (new : PageTableMetadata) (hs : s.frames.Nodup)
    (hfree : s.findTable new.framePhys = none) : (s.addSlot new).frames.Nodup := by
  show ((s.tables ++ [new]).map _).Nodup
  rw [map_append]
  refine nodup_append.mpr ⟨hs, by simp, ?_⟩
  intro a ha b hb hab
  have hb' : b = new.framePhys := by simpa using hb
  subst hab
  rw [hb'] at ha
  exact findTable_eq_none.mp hfree ha

/-- The frames left are the others, and the slot's frame was among them. -/
theorem frames_unregisterTable (h : s.findTable f = some md) :
    s.frames.Perm (f :: (s.unregisterTable f).frames) := by
  obtain ⟨hmem, hframe⟩ := findTable_some h
  show (s.tables.map _).Perm (f :: (s.tables.eraseP _).map _)
  obtain ⟨a, l1, l2, _, ha, hsplit, herase⟩ :=
    exists_of_eraseP (p := fun m : PageTableMetadata => m.framePhys == f) hmem
      (by simpa using hframe)
  have haf : a.framePhys = f := by simpa using ha
  rw [herase, hsplit, map_append, map_cons, map_append, haf]
  exact perm_middle

theorem frames_unregisterTable_nodup (hs : s.frames.Nodup) : (s.unregisterTable f).frames.Nodup :=
  List.Nodup.sublist (eraseP_sublist.map _) hs

theorem findTable_unregisterTable (hs : s.frames.Nodup) :
    (s.unregisterTable f).findTable g = if g = f then none else s.findTable g := by
  cases hf : s.findTable f with
  | none =>
    -- Nothing to erase.
    have hsame : s.unregisterTable f = s := by
      unfold unregisterTable
      rw [eraseP_of_forall_not]
      intro md hmd
      have hnot := findTable_eq_none.mp hf
      simpa using fun heq : md.framePhys = f => hnot (heq ▸ mem_map_of_mem hmd)
    rw [hsame]
    by_cases hg : g = f
    · rw [if_pos hg, hg, hf]
    · rw [if_neg hg]
  | some =>
    have hperm := frames_unregisterTable hf
    have hnodup := hperm.nodup_iff.mp hs
    by_cases hg : g = f
    · rw [if_pos hg, hg, findTable_eq_none]
      exact (nodup_cons.mp hnodup).1
    rw [if_neg hg]
    cases hfind : s.findTable g with
    | none =>
      rw [findTable_eq_none] at hfind ⊢
      exact fun hmem => hfind (hperm.mem_iff.mpr (mem_cons_of_mem _ hmem))
    | some md' =>
      obtain ⟨hmem, hframe⟩ := findTable_some hfind
      have hstill : md' ∈ (s.unregisterTable f).tables := by
        show md' ∈ s.tables.eraseP _
        rw [mem_eraseP_of_neg (by simpa [hframe] using hg)]
        exact hmem
      rw [← hframe]
      exact findTable_of_mem (frames_unregisterTable_nodup hs) hstill

/-! ## §4. Counting. -/

theorem frames_setPresentEntries : (s.setPresentEntries f n).frames = s.frames := by
  show (s.tables.map _).map _ = s.tables.map _
  rw [map_map]
  apply map_congr_left
  intro md _
  show (if md.framePhys = f then { md with presentEntries := n } else md).framePhys = md.framePhys
  split <;> rfl

theorem findTable_setPresentEntries : (s.setPresentEntries f n).findTable g =
      if g = f then (s.findTable f).map (fun md => { md with presentEntries := n })
      else s.findTable g := by
  show (s.tables.map _).find? _ = _
  rw [List.find?_map]
  have hpred : (fun md : PageTableMetadata => md.framePhys == g) ∘ (fun md : PageTableMetadata =>
      if md.framePhys = f then { md with presentEntries := n } else md) =
      fun md => md.framePhys == g := by
    funext md
    show ((if md.framePhys = f then { md with presentEntries := n } else md).framePhys == g) = _
    split <;> rfl
  rw [hpred]
  show (s.findTable g).map _ = _
  by_cases hg : g = f
  · subst hg
    rw [if_pos rfl]
    cases hfind : s.findTable g with
    | none => rfl
    | some =>
      have hframe := (findTable_some hfind).2
      simp [hframe]
  · rw [if_neg hg]
    cases hfind : s.findTable g with
    | none => rfl
    | some =>
      have hframe := (findTable_some hfind).2
      simp [hframe, hg]

/-- Setting a count to what it is changes nothing. -/
theorem setPresentEntries_eq (h : ∀ md ∈ s.tables, md.framePhys = f → md.presentEntries = n) :
    s.setPresentEntries f n = s := by
  have hmap : s.tables.map (fun md =>
      if md.framePhys = f then { md with presentEntries := n } else md) = s.tables := by
    conv_rhs => rw [← map_id s.tables]
    apply map_congr_left
    intro md hmd
    by_cases hf : md.framePhys = f
    · rw [if_pos hf, ← h md hmd hf]
      rfl
    · rw [if_neg hf]
      rfl
  show { s with tables := s.tables.map _ } = s
  rw [hmap]

/-- A frame without a slot has no count to set. -/
theorem setPresentEntries_of_none (h : s.findTable f = none) : s.setPresentEntries f n = s := by
  apply setPresentEntries_eq
  intro md hmd hf
  exact absurd (hf ▸ mem_map_of_mem hmd) (findTable_eq_none.mp h)

/-- The count of a table; 0 when it has no slot. -/
def presentEntries (s : PagingState) (f : Nat) : Nat :=
  match s.findTable f with
  | none => 0
  | some md => md.presentEntries

theorem setPresentEntries_self (hs : s.frames.Nodup) :
    s.setPresentEntries f (s.presentEntries f) = s := by
  apply setPresentEntries_eq
  intro md hmd hf
  unfold presentEntries
  rw [← hf, findTable_of_mem hs hmd]

theorem incrementPresentEntry_eq (hlt : s.presentEntries f < TABLE_ENTRIES) :
    s.incrementPresentEntry f = some (s.setPresentEntries f (s.presentEntries f + 1)) := by
  unfold incrementPresentEntry presentEntries at *
  cases h : s.findTable f with
  | none => simp [setPresentEntries_of_none h]
  | some md =>
    rw [h] at hlt
    have hne : md.presentEntries ≠ TABLE_ENTRIES := Nat.ne_of_lt hlt
    simp [hne]

theorem decrementPresentEntry_eq (h : s.findTable f = none ∨ 0 < s.presentEntries f) :
    s.decrementPresentEntry f = some (s.setPresentEntries f (s.presentEntries f - 1)) := by
  unfold decrementPresentEntry presentEntries at *
  cases hf : s.findTable f with
  | none => simp [setPresentEntries_of_none hf]
  | some md =>
    rw [hf] at h
    have hne : md.presentEntries ≠ 0 := by
      rcases h with h | h
      · cases h
      · exact Nat.ne_of_gt h
    simp [hne]

theorem tableEmpty_iff : s.tableEmpty f ↔ ∃ md, s.findTable f = some md ∧
    md.presentEntries = 0 := by
  unfold tableEmpty
  cases s.findTable f with
  | none => simp
  | some => simp

theorem tableOwnedBy_iff {owner : PageTableOwner} {level : PageTableLevel} :
    s.tableOwnedBy f root owner level ↔ ∃ md, s.findTable f = some md ∧
      md.owner = owner ∧ md.level = level ∧ md.rootPhys = root := by
  unfold tableOwnedBy
  cases s.findTable f with
  | none => simp
  | some => simp [and_assoc]

end PagingState

end BigOS.Mm.Paging
