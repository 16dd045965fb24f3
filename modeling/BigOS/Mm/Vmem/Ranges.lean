/-
  BigOS.Mm.Vmem.Ranges — the block lists of `VMem` keep the pages they manage.

  Every page of the kernel range is in exactly one block of the two lists:
  splitting, inserting and merging blocks only regroups the pages.

  Main results:
    • `insertMerged_spec` — freeing a block adds its pages to the free ones,
    • `allocPages_spec` — allocating takes the pages of one block out of them.
-/
import BigOS.Mm.Vmem.Model

namespace BigOS.Mm.Vmem

open BigOS.Mm.Paging List

variable {l pre post : List MemoryBlock} {b mblk joined c : MemoryBlock}

/-! ## §1. The pages of blocks. -/

/-- The page numbers of a block. -/
def MemoryBlock.pages (b : MemoryBlock) : List Nat := range' (b.base / PAGE_SIZE) b.nrPages

/-- The page numbers of a list of blocks. -/
def areaPages (l : List MemoryBlock) : List Nat := l.flatMap MemoryBlock.pages

/-- A block starts at a page and is not empty. -/
structure MemoryBlock.Wf (b : MemoryBlock) : Prop where
  aligned : b.base % PAGE_SIZE = 0
  pos : 0 < b.nrPages

/-- A free block also has nothing behind it. -/
structure MemoryBlock.Free (b : MemoryBlock) : Prop extends b.Wf where
  unbacked : b.physicalArea = []

theorem areaPages_cons (b : MemoryBlock) (l : List MemoryBlock) :
    areaPages (b :: l) = b.pages ++ areaPages l := rfl

theorem areaPages_append (l l' : List MemoryBlock) :
    areaPages (l ++ l') = areaPages l ++ areaPages l' := flatMap_append

theorem areaPages_perm {l' : List MemoryBlock} (h : l.Perm l') :
    (areaPages l).Perm (areaPages l') := h.flatMap_right _

theorem MemoryBlock.mem_pages {p : Nat} :
    p ∈ b.pages ↔ b.base / PAGE_SIZE ≤ p ∧ p < b.base / PAGE_SIZE + b.nrPages := by
  unfold MemoryBlock.pages
  rw [mem_range'_1]

/-- Neighbouring blocks joined have the pages of both. -/
theorem pages_join (hb : b.Wf) (hadj : b.endAddr = c.base) :
    ({ b with nrPages := b.nrPages + c.nrPages } : MemoryBlock).pages = b.pages ++ c.pages := by
  have hstart : c.base / PAGE_SIZE = b.base / PAGE_SIZE + b.nrPages := by
    have halign := hb.aligned
    rw [← hadj]
    unfold MemoryBlock.endAddr PAGE_SIZE at *
    omega
  show range' (b.base / PAGE_SIZE) (b.nrPages + c.nrPages) =
    range' (b.base / PAGE_SIZE) b.nrPages ++ range' (c.base / PAGE_SIZE) c.nrPages
  rw [hstart, range'_append_1]

/-- Inserting a block anywhere adds it to the list. -/
theorem insert_perm (b : MemoryBlock) (l : List MemoryBlock) :
    (before b.base l ++ b :: after b.base l).Perm (b :: l) := by
  have hsplit : before b.base l ++ after b.base l = l := takeWhile_append_dropWhile
  have hperm : (before b.base l ++ b :: after b.base l).Perm
      (b :: (before b.base l ++ after b.base l)) := perm_middle
  rwa [hsplit] at hperm

/-! ## §2. Merging. -/

/-- Joining two neighbours regroups their pages. -/
theorem join_spec (hfree : ∀ x ∈ pre ++ b :: c :: post, x.Free) (hadj : b.endAddr = c.base) :
    (areaPages ({ b with nrPages := b.nrPages + c.nrPages } :: (pre ++ post))).Perm
        (areaPages (pre ++ b :: c :: post)) ∧
      ∀ x ∈ { b with nrPages := b.nrPages + c.nrPages } :: (pre ++ post), x.Free := by
  have hb : b.Free := hfree b (by simp)
  constructor
  · rw [areaPages_cons, pages_join hb.toWf hadj]
    have hperm : (pre ++ b :: c :: post).Perm (b :: c :: (pre ++ post)) :=
      perm_middle.trans (List.Perm.cons b perm_middle)
    have hpages := areaPages_perm hperm
    rw [areaPages_cons, areaPages_cons, ← append_assoc] at hpages
    exact hpages.symm
  · intro x hx
    rcases mem_cons.mp hx with rfl | hx
    · exact ⟨⟨hb.aligned, Nat.add_pos_left hb.pos _⟩, hb.unbacked⟩
    · apply hfree x
      rcases mem_append.mp hx with hx | hx <;> simp [hx]

/-- A merge joins two neighbours, one of which is `mblk`. -/
theorem mergeStep_some (h : mergeStep pre mblk post = some (joined, l)) :
    ∃ p b c q, pre ++ mblk :: post = p ++ b :: c :: q ∧ b.endAddr = c.base ∧
      joined = { b with nrPages := b.nrPages + c.nrPages } ∧ l = p ++ q ∧ l <+ pre ++ post := by
  by_cases hprevious : mergePrevious pre mblk post = some (joined, l)
  · unfold mergePrevious at hprevious
    split at hprevious
    · rename_i prev hlast
      obtain ⟨init, rfl⟩ := getLast?_eq_some_iff.mp hlast
      split at hprevious
      · rename_i hadj
        cases hprevious
        rw [dropLast_concat]
        exact ⟨init, prev, mblk, post, by simp, hadj, rfl, rfl, by simp⟩
      · cases hprevious
    · cases hprevious
  · unfold mergeStep at h
    split at h
    · split at h
      · rename_i next rest hadj
        cases h
        exact ⟨pre, mblk, next, rest, rfl, hadj, rfl, rfl, by simp⟩
      · exact absurd h hprevious
    · exact absurd h hprevious

/-- Merging regroups the free pages. -/
theorem merge_spec (n : Nat) (hfree : ∀ b ∈ pre ++ mblk :: post, b.Free) :
    (areaPages (merge n pre mblk post)).Perm (areaPages (pre ++ mblk :: post)) ∧
      ∀ b ∈ merge n pre mblk post, b.Free := by
  induction n generalizing pre mblk post with
  | zero => exact ⟨List.Perm.refl _, hfree⟩
  | succ n ih =>
    unfold merge
    cases hstep : mergeStep pre mblk post with
    | none => exact ⟨List.Perm.refl _, hfree⟩
    | some r =>
      obtain ⟨joined, l⟩ := r
      obtain ⟨p, b, c, q, hlist, hadj, rfl, rfl, -⟩ := mergeStep_some hstep
      rw [hlist] at hfree ⊢
      obtain ⟨hpages, hfree'⟩ := join_spec hfree hadj
      have hins := insert_perm { b with nrPages := b.nrPages + c.nrPages } (p ++ q)
      obtain ⟨hrest, hfree''⟩ := ih (fun x hx => hfree' x (hins.mem_iff.mp hx))
      exact ⟨hrest.trans ((areaPages_perm hins).trans hpages), hfree''⟩

/-- The end of `VMem::__free`: the pages of the block join the free ones. -/
theorem insertMerged_spec (hmblk : mblk.Free) (hfree : ∀ b ∈ l, b.Free) :
    (areaPages (insertMerged mblk l)).Perm (mblk.pages ++ areaPages l) ∧
      ∀ b ∈ insertMerged mblk l, b.Free := by
  have hins := insert_perm mblk l
  have hall : ∀ b ∈ before mblk.base l ++ mblk :: after mblk.base l, b.Free := by
    intro b hb
    rcases mem_cons.mp (hins.mem_iff.mp hb) with rfl | hb
    · exact hmblk
    · exact hfree b hb
  obtain ⟨hpages, hfree'⟩ := merge_spec l.length hall
  exact ⟨hpages.trans (areaPages_perm hins), hfree'⟩

/-! ## §3. Allocating. -/

/-- The blocks hold exactly the pages `all`. -/
structure Ranges (all : List Nat) (v : VMem) : Prop where
  free : ∀ b ∈ v.freeArea, b.Free
  used : ∀ b ∈ v.usedArea, b.Wf
  pages : (areaPages v.freeArea ++ areaPages v.usedArea).Perm all

/-- What an allocation does to the lists: the block `b` moves, or nothing does. -/
structure Moved (s s' : KernelState) (b : MemoryBlock) (pages : Nat) : Prop where
  block : b.Free
  size : b.nrPages = pages
  paging : s'.paging = s.paging
  used : s'.vmem.usedArea = s.vmem.usedArea ++ [b]
  free : ∀ b' ∈ s'.vmem.freeArea, b'.Free
  pages : (b.pages ++ areaPages s'.vmem.freeArea).Perm (areaPages s.vmem.freeArea)

/-- The lists hold the same pages as before. -/
structure Unmoved (s s' : KernelState) : Prop where
  paging : s'.paging = s.paging
  used : s'.vmem.usedArea = s.vmem.usedArea
  free : ∀ b' ∈ s'.vmem.freeArea, b'.Free
  pages : (areaPages s'.vmem.freeArea).Perm (areaPages s.vmem.freeArea)

/-- A block split at a page count has the pages of both parts. -/
theorem pages_split (hb : b.Wf) {n : Nat} (hn : n < b.nrPages) :
    b.pages = ({ b with nrPages := n } : MemoryBlock).pages ++
      (⟨b.base + PAGE_SIZE * n, b.nrPages - n, []⟩ : MemoryBlock).pages := by
  have halign := hb.aligned
  have hstart : (b.base + PAGE_SIZE * n) / PAGE_SIZE = b.base / PAGE_SIZE + n := by
    unfold PAGE_SIZE at *
    omega
  show range' (b.base / PAGE_SIZE) b.nrPages =
    range' (b.base / PAGE_SIZE) n ++ range' ((b.base + PAGE_SIZE * n) / PAGE_SIZE) (b.nrPages - n)
  rw [hstart, range'_append_1, Nat.add_sub_cancel' (Nat.le_of_lt hn)]

/-- What `__alloc_pages` returns. -/
inductive Allocates (m : KernelMachine) (s : KernelState) (pages : Nat) :
    Option MemoryBlock × KernelState → Prop
  | tooLarge : Allocates m s pages (none, s)
  /-- The block goes back to the end of the list. -/
  | refused {pre post : List MemoryBlock} {mblk : MemoryBlock} {n : Nat}
      (hfree : s.vmem.freeArea = pre ++ mblk :: post) (hnew : ∃ n, m.newObject n = false) :
      Allocates m s pages (none, ⟨⟨pre ++ post ++ [mblk], s.vmem.usedArea, s.vmem.nrFreePages⟩,
        s.paging, n⟩)
  | whole {pre post : List MemoryBlock} {mblk : MemoryBlock}
      (hfree : s.vmem.freeArea = pre ++ mblk :: post)
      (hsize : mblk.nrPages = pages) :
      Allocates m s pages (some mblk, ⟨⟨pre ++ post, s.vmem.usedArea ++ [mblk],
        s.vmem.nrFreePages - pages⟩, s.paging, s.requests⟩)
  | part {pre post : List MemoryBlock} {mblk upper : MemoryBlock} {n : Nat}
      (hfree : s.vmem.freeArea = pre ++ mblk :: post) (hpos : 0 < pages)
      (hsize : pages < mblk.nrPages)
      (hupper : upper = ⟨mblk.base + PAGE_SIZE * pages, mblk.nrPages - pages, []⟩) :
      Allocates m s pages (some { mblk with nrPages := pages },
        ⟨⟨before upper.base (pre ++ post) ++ upper :: after upper.base (pre ++ post),
          s.vmem.usedArea ++ [{ mblk with nrPages := pages }], s.vmem.nrFreePages - pages⟩,
          s.paging, n⟩)

/-- What a search finds is what the same search erases. -/
theorem eraseP_found {p : MemoryBlock → Bool} (h : l.find? p = some b) :
    p b ∧ ∃ pre post, l = pre ++ b :: post ∧ l.eraseP p = pre ++ post := by
  obtain ⟨hb, pre, post, rfl, hpre⟩ := find?_eq_some_iff_append.mp h
  refine ⟨hb, pre, post, rfl, ?_⟩
  rw [eraseP_append_right _ (fun a ha => by simpa using hpre a ha), eraseP_cons_of_pos hb]

theorem allocPages_cases (m : KernelMachine) (s : KernelState) (pages : Nat) :
    Allocates m s pages (allocPages m s pages) := by
  unfold allocPages
  split
  · exact .tooLarge
  rename_i hpos
  split
  · exact .tooLarge
  rename_i mblk hfind
  obtain ⟨hsize, pre, post, hfree, herase⟩ := eraseP_found hfind
  have hsize : pages ≤ mblk.nrPages := of_decide_eq_true hsize
  rw [herase]
  unfold splitBlock KernelState.newObject
  split
  · rename_i hgt
    cases hnew : m.newObject s.requests with
    | false => exact .refused hfree ⟨_, hnew⟩
    | true =>
      cases hnew' : m.newObject (s.requests + 1) with
      | false =>
        simp only [hnew']
        exact .refused hfree ⟨_, hnew'⟩
      | true =>
        simp only [hnew']
        exact .part hfree (by omega) hgt rfl
  · exact .whole hfree (by omega)

theorem allocPages_spec (m : KernelMachine) (s : KernelState) (pages : Nat)
    (hfree : ∀ b ∈ s.vmem.freeArea, b.Free) :
    (∃ s', allocPages m s pages = (none, s') ∧ Unmoved s s') ∨
    ∃ b s', allocPages m s pages = (some b, s') ∧ Moved s s' b pages := by
  have hcases := allocPages_cases m s pages
  generalize allocPages m s pages = r at hcases
  cases hcases with
  | tooLarge => exact .inl ⟨s, rfl, rfl, rfl, hfree, List.Perm.refl _⟩
  | @refused pre post mblk _ hlist _ =>
    have hback := (perm_append_singleton mblk (pre ++ post)).trans perm_middle.symm
    rw [← hlist] at hback
    exact .inl ⟨_, rfl, rfl, rfl, fun b hb => hfree b (hback.mem_iff.mp hb), areaPages_perm hback⟩
  | @whole pre post mblk hlist hsize =>
    have hperm : (mblk :: (pre ++ post)).Perm s.vmem.freeArea := hlist ▸ perm_middle.symm
    have hin : ∀ b ∈ mblk :: (pre ++ post), b.Free := fun b hb => hfree b (hperm.mem_iff.mp hb)
    exact .inr ⟨_, _, rfl, hin _ mem_cons_self, hsize, rfl, rfl,
      fun b hb => hin b (mem_cons_of_mem _ hb), areaPages_perm hperm⟩
  | @part pre post mblk upper _ hlist hpos hsize hupper =>
    have hperm : (mblk :: (pre ++ post)).Perm s.vmem.freeArea := hlist ▸ perm_middle.symm
    have hin : ∀ b ∈ mblk :: (pre ++ post), b.Free := fun b hb => hfree b (hperm.mem_iff.mp hb)
    have hmblk := hin _ mem_cons_self
    have hins := insert_perm upper (pre ++ post)
    refine .inr ⟨_, _, rfl, ⟨⟨hmblk.aligned, hpos⟩, hmblk.unbacked⟩, rfl, rfl, rfl, ?_, ?_⟩
    · intro b hb
      rcases mem_cons.mp (hins.mem_iff.mp hb) with rfl | hb
      · subst hupper
        refine ⟨⟨?_, Nat.sub_pos_of_lt hsize⟩, rfl⟩
        show (mblk.base + PAGE_SIZE * pages) % PAGE_SIZE = 0
        rw [Nat.add_mul_mod_self_left, hmblk.aligned]
      · exact hin b (mem_cons_of_mem _ hb)
    · have hpages := (areaPages_perm hins).append_left
        ({ mblk with nrPages := pages } : MemoryBlock).pages
      rw [areaPages_cons, ← append_assoc, hupper, ← pages_split hmblk.toWf hsize] at hpages
      rw [hupper]
      exact hpages.trans (areaPages_perm hperm)

/-! ## §4. The pages of both lists. -/

/-- The page numbers of the kernel range. -/
def kvmemPages : List Nat := range' (KVMEM_BASE / PAGE_SIZE) (KVMEM_LEN / PAGE_SIZE)

theorem areaPages_init : areaPages VMem.init.freeArea = kvmemPages := append_nil _

theorem Ranges.init : Ranges kvmemPages VMem.init := by
  refine ⟨fun b hb => ?_, nofun, ?_⟩
  · rw [mem_singleton.mp hb]
    exact ⟨⟨by decide, by decide⟩, rfl⟩
  · rw [areaPages_init]
    exact List.Perm.of_eq (append_nil _)

section

variable {all : List Nat} {s s' : KernelState}

theorem Ranges.unmoved (h : Ranges all s.vmem) (hun : Unmoved s s') : Ranges all s'.vmem := by
  refine ⟨hun.free, ?_, ?_⟩ <;> rw [hun.used]
  · exact h.used
  · exact (hun.pages.append_right _).trans h.pages

theorem Ranges.moved {pages n : Nat} (h : Ranges all s.vmem) (hmoved : Moved s s' b pages)
    (area : List (Nat × Nat)) :
    Ranges all ⟨s'.vmem.freeArea, s.vmem.usedArea ++ [{ b with physicalArea := area }], n⟩ := by
  refine ⟨hmoved.free, fun b' hb' => ?_, ?_⟩
  · rcases mem_append.mp hb' with hb' | hb'
    · exact h.used b' hb'
    · rw [mem_singleton.mp hb']
      exact ⟨hmoved.block.aligned, hmoved.block.pos⟩
  · have hblock : areaPages [{ b with physicalArea := area }] = b.pages := append_nil _
    rw [areaPages_append, hblock, ← append_assoc]
    refine perm_append_comm.trans ?_
    rw [← append_assoc]
    exact (hmoved.pages.append_right _).trans h.pages

end

end BigOS.Mm.Vmem
