/-
  BigOS.Mm.Buddy.BootMap — what `init_buddy` makes of a boot memory map.

  `boot_map_iff`: after `init_buddy` the free pages are exactly the whole pages
  of the usable regions outside the lowest 2 MiB, the kernel image and the
  framebuffer, if and only if no range handed to `handle_ards` lies wholly
  inside the kernel image.  Such a range passes both kernel branches of
  `handle_ards` and is freed (`region_inside_kernel_is_freed`).
-/
import BigOS.Mm.Buddy.Safety

namespace BigOS.Mm.Buddy

open BootState List Option

variable {fb : Option BootFramebufferMetadata} {r : BootMemoryRegion} {x : Nat × Nat}
  {p kernelSize : Nat} {handoff : BootHandoff}

/-! ## §1. The ranges of a region. -/

/-- The address range of a region. -/
def BootMemoryRegion.range (r : BootMemoryRegion) : Nat × Nat := (r.physicalBase, r.length)

/-- Membership in a range that does not wrap. -/
theorem inRange_iff {b l a : Nat} (hw : b + l < 2 ^ 64) (ha : a < 2 ^ 64) :
    InRange (b, l) a ↔ b ≤ a ∧ a < b + l := by
  unfold InRange u64Sub u64
  omega

/-- The two tests on a region's end tell whether it wraps. -/
theorem u64_end_lt_iff {b l : Nat} (hb : b < 2 ^ 64) (hl : l < 2 ^ 64) :
    u64 (b + l) < b ↔ 2 ^ 64 ≤ b + l := by
  unfold u64
  omega

/-- A valid framebuffer is a non-empty range that does not wrap. -/
theorem framebuffer_valid_range {fb : BootFramebufferMetadata} (h : framebufferMetadataValid fb) :
    0 < fb.byteSize ∧ fb.physicalBase + fb.byteSize < 2 ^ 64 := by
  unfold framebufferMetadataValid at h
  split at h
  · cases h
  split at h
  · cases h
  split at h
  · cases h
  split at h
  · cases h
  split at h
  · cases h
  next hov =>
    have hs := fb.size_lt
    unfold bootRangeOverflows u64 at hov
    simp only [Bool.or_eq_true, beq_iff_eq, decide_eq_true_eq, not_or] at hov
    omega

section

variable (hfb : ∀ f ∈ fb, framebufferMetadataValid f)

include hfb

/-- The ways a range can come out of a region: the whole region, or what lies
before or after the framebuffer. -/
theorem mem_regionRanges (h : x ∈ regionRanges fb r) : r.normalizedType = .usable
      ∧ ((x = r.range ∧ ∀ f ∈ fb, r.length = 0 ∨ (r.physicalBase + r.length < 2 ^ 64
            ∧ (r.physicalBase + r.length ≤ f.physicalBase
              ∨ f.physicalBase + f.byteSize ≤ r.physicalBase)))
        ∨ ∃ f ∈ fb, r.physicalBase + r.length < 2 ^ 64
            ∧ r.physicalBase < f.physicalBase + f.byteSize
            ∧ f.physicalBase < r.physicalBase + r.length
            ∧ ((x = (r.physicalBase, f.physicalBase - r.physicalBase)
                  ∧ r.physicalBase < f.physicalBase) ∨ (x = (f.physicalBase + f.byteSize,
                    r.physicalBase + r.length - (f.physicalBase + f.byteSize))
                  ∧ f.physicalBase + f.byteSize < r.physicalBase + r.length))) := by
  have hrb := r.base_lt
  have hrl := r.length_lt
  unfold regionRanges at h
  split at h
  · cases h
  next husable =>
    refine ⟨by simpa using husable, ?_⟩
    cases fb with
    | none =>
      simp only [mem_singleton] at h
      exact .inl ⟨h, by simp⟩
    | some f =>
      obtain ⟨hfs, hfw⟩ := framebuffer_valid_range (hfb f rfl)
      have hwrap := u64_end_lt_iff hrb hrl
      have hfend : u64 (f.physicalBase + f.byteSize) = f.physicalBase + f.byteSize := u64_of_lt hfw
      simp only at h
      split at h
      next hov =>
        -- no overlap: the region as it is
        refine .inl ⟨mem_singleton.mp h, ?_⟩
        rintro g hg
        obtain rfl : f = g := by simpa using hg
        unfold rangesOverlap at hov
        by_cases hl : r.length = 0
        · exact .inl hl
        rw [if_neg (by omega)] at hov
        by_cases hw : u64 (r.physicalBase + r.length) < r.physicalBase
        · rw [if_pos (Or.inl hw)] at hov
          cases hov
        have hnw : r.physicalBase + r.length < 2 ^ 64 := by omega
        rw [if_neg (by omega), u64_of_lt hnw] at hov
        simp only [Bool.not_and, Bool.or_eq_true, Bool.not_eq_true', decide_eq_false_iff_not,
          Nat.not_lt] at hov
        exact .inr ⟨hnw, by omega⟩
      rename_i hov
      rw [hfend] at h
      unfold rangesOverlap at hov
      rw [hfend] at hov
      split at h
      · cases h
      next hw =>
        have hnw : r.physicalBase + r.length < 2 ^ 64 := by omega
        rw [u64_of_lt hnw] at h hov
        have hcross : r.physicalBase < f.physicalBase + f.byteSize
            ∧ f.physicalBase < r.physicalBase + r.length := by
          by_cases hl : r.length = 0
          · rw [if_pos (Or.inl hl)] at hov
            exact absurd hov (by simp)
          · rw [if_neg (by omega)] at hov
            simpa using hov
        refine .inr ⟨f, rfl, hnw, hcross.1, hcross.2, ?_⟩
        rcases mem_append.mp h with h | h
        · split at h
          next hlt => exact .inl ⟨by simpa using h, hlt⟩
          next => cases h
        · split at h
          next hlt => exact .inr ⟨by simpa using h, hlt⟩
          next => cases h

/-- A range is a part of its region, in 64-bit words. -/
theorem regionRanges_subset (h : x ∈ regionRanges fb r) :
    (x.1 < 2 ^ 64 ∧ x.2 < 2 ^ 64) ∧ ∀ a < 2 ^ 64, InRange x a → InRange r.range a := by
  have hrb := r.base_lt
  have hrl := r.length_lt
  obtain ⟨-, hcases⟩ := mem_regionRanges hfb h
  rcases hcases with ⟨rfl, -⟩ | ⟨f, -, hnw, h1, h2, ⟨rfl, h3⟩ | ⟨rfl, h3⟩⟩
  · exact ⟨⟨hrb, hrl⟩, fun a _ hin => hin⟩
  · refine ⟨⟨hrb, by simp only; omega⟩, fun a ha hin => ?_⟩
    rw [inRange_iff (by omega) ha] at hin
    exact (inRange_iff hnw ha).mpr (by omega)
  · refine ⟨⟨by simp only; omega, by simp only; omega⟩, fun a ha hin => ?_⟩
    rw [inRange_iff (by omega) ha] at hin
    exact (inRange_iff hnw ha).mpr (by omega)

/-- No range touches the framebuffer. -/
theorem regionRanges_avoids
    (h : x ∈ regionRanges fb r) {f : BootFramebufferMetadata} (hf : f ∈ fb) {a : Nat}
    (ha : a < 2 ^ 64) (hin : InRange x a) :
    a < f.physicalBase ∨ f.physicalBase + f.byteSize ≤ a := by
  obtain ⟨-, hcases⟩ := mem_regionRanges hfb h
  rcases hcases with ⟨rfl, hdisj⟩ | ⟨g, hg, hnw, h1, h2, ⟨rfl, h3⟩ | ⟨rfl, h3⟩⟩
  · rcases hdisj f hf with hl | ⟨hnw, hd⟩
    · -- an empty region has no address
      unfold InRange at hin
      rw [show r.range.2 = 0 from hl] at hin
      exact absurd hin (Nat.not_lt_zero _)
    · rw [show r.range = (r.physicalBase, r.length) from rfl, inRange_iff hnw ha] at hin
      omega
  · obtain rfl : f = g := mem_unique hf hg
    rw [inRange_iff (by omega) ha] at hin
    omega
  · obtain rfl : f = g := mem_unique hf hg
    rw [inRange_iff (by omega) ha] at hin
    omega

/-- The two ranges of one region lie on both sides of the framebuffer. -/
theorem regionRanges_pairwise :
    (regionRanges fb r).Pairwise (fun x y => ∀ a < 2 ^ 64, InRange x a → ¬ InRange y a) := by
  have hrb := r.base_lt
  have hrl := r.length_lt
  unfold regionRanges
  split
  · exact List.Pairwise.nil
  cases fb with
  | none => exact pairwise_singleton _ _
  | some f =>
    obtain ⟨hfs, hfw⟩ := framebuffer_valid_range (hfb f rfl)
    have hwrap := u64_end_lt_iff hrb hrl
    simp only
    split
    · exact pairwise_singleton _ _
    split
    · exact List.Pairwise.nil
    next hw =>
      rw [u64_of_lt hfw, u64_of_lt (by omega)]
      split
      next hleft =>
        split
        next hright =>
          refine pairwise_append.mpr ⟨pairwise_singleton _ _, pairwise_singleton _ _, ?_⟩
          intro x hx y hy a ha hxa hya
          rw [mem_singleton.mp hx, inRange_iff (by omega) ha] at hxa
          rw [mem_singleton.mp hy, inRange_iff (by omega) ha] at hya
          omega
        next => exact pairwise_singleton _ _
      next =>
        split
        next => exact pairwise_singleton _ _
        next => exact List.Pairwise.nil

/-- Every page of a region that does not wrap, outside the framebuffer, is in
one of the region's ranges. -/
theorem exists_regionRange
    (husable : r.normalizedType = .usable) (hnw : r.physicalBase + r.length < 2 ^ 64)
    (hlo : r.physicalBase ≤ PAGE_SIZE * p) (hhi : PAGE_SIZE * (p + 1) ≤ r.physicalBase + r.length)
    (hout : ∀ f ∈ fb, PAGE_SIZE * (p + 1) ≤ f.physicalBase ∨
      f.physicalBase + f.byteSize ≤ PAGE_SIZE * p) :
    ∃ x ∈ regionRanges fb r, x.1 + x.2 < 2 ^ 64 ∧ x.1 ≤ PAGE_SIZE * p
      ∧ PAGE_SIZE * (p + 1) ≤ x.1 + x.2 := by
  have hps : PAGE_SIZE = 4096 := rfl
  unfold regionRanges
  rw [if_neg (by simp [husable])]
  cases fb with
  | none => exact ⟨_, mem_singleton.mpr rfl, hnw, hlo, hhi⟩
  | some f =>
    obtain ⟨hfs, hfw⟩ := framebuffer_valid_range (hfb f rfl)
    simp only
    split
    · exact ⟨_, mem_singleton.mpr rfl, hnw, hlo, hhi⟩
    rw [u64_of_lt hfw, u64_of_lt hnw, if_neg (by omega)]
    rw [hps] at hlo hhi hout ⊢
    rcases hout f rfl with hbefore | hafter
    · refine ⟨(r.physicalBase, f.physicalBase - r.physicalBase), ?_, ?_⟩
      · rw [if_pos (by omega)]
        exact mem_append_left _ (mem_singleton.mpr rfl)
      · simp only
        omega
    · refine ⟨(f.physicalBase + f.byteSize,
        r.physicalBase + r.length - (f.physicalBase + f.byteSize)), ?_, ?_⟩
      · rw [if_pos (show f.physicalBase + f.byteSize < r.physicalBase + r.length by omega)]
        exact mem_append_right _ (mem_singleton.mpr rfl)
      · simp only
        omega

end

/-! ## §2. The whole memory map. -/

/-- The usable regions of a handoff. -/
def BootHandoff.usable (handoff : BootHandoff) : List BootMemoryRegion :=
  handoff.regions.filter (fun r => r.normalizedType = .usable)

/-- The ranges handed to `handle_ards`, in order. -/
def BootHandoff.ranges (handoff : BootHandoff) : List (Nat × Nat) :=
  handoff.regions.flatMap (regionRanges handoff.framebuffer)

/-- No two usable regions share an address. -/
def BootHandoff.DisjointUsable (handoff : BootHandoff) : Prop :=
  handoff.usable.Pairwise
    (fun r r' => ∀ a < 2 ^ 64, InRange r.range a → ¬ InRange r'.range a)

theorem framebuffer_valid (handoff : BootHandoff) :
    ∀ f ∈ handoff.framebuffer, framebufferMetadataValid f := by
  intro f hf
  cases handoff with
  | v2 => exact (mem_filter_iff.mp hf).2
  | v1 => exact absurd hf (by simp [BootHandoff.framebuffer])
  | absent => exact absurd hf (by simp [BootHandoff.framebuffer])

theorem mem_ranges (h : x ∈ handoff.ranges) :
    ∃ r ∈ handoff.usable, x ∈ regionRanges handoff.framebuffer r := by
  obtain ⟨r, hr, hx⟩ := mem_flatMap.mp h
  obtain ⟨husable, -⟩ := mem_regionRanges (framebuffer_valid handoff) hx
  exact ⟨r, mem_filter.mpr ⟨hr, by simpa using husable⟩, hx⟩

/-- Disjoint regions give disjoint ranges. -/
theorem disjointRanges_of_usable (h : handoff.DisjointUsable) : DisjointRanges handoff.ranges := by
  have hfb := framebuffer_valid handoff
  constructor
  · intro x hx
    obtain ⟨r, -, hxr⟩ := mem_ranges hx
    exact (regionRanges_subset hfb hxr).1
  · unfold BootHandoff.ranges
    rw [pairwise_flatMap]
    refine ⟨fun r _ => regionRanges_pairwise hfb, ?_⟩
    refine (pairwise_filter.mp h).imp ?_
    intro r r' hdisj x hx y hy a ha hxa hya
    obtain ⟨hr, -⟩ := mem_regionRanges hfb hx
    obtain ⟨hr', -⟩ := mem_regionRanges hfb hy
    exact hdisj (by simpa using hr) (by simpa using hr') a ha
      ((regionRanges_subset hfb hx).2 a ha hxa) ((regionRanges_subset hfb hy).2 a ha hya)

/-- The free pages after `init_buddy`: each once, exactly those of the calls of
`handle_ards`. -/
theorem initBuddy_spec {boot : BootState} (hdisj : handoff.DisjointUsable)
    (hinit : initBuddy handoff = some boot) :
    ∃ kernelSize P, handoff.kernelSize = some kernelSize ∧ Inv P boot.state
      ∧ boot.state.freePages = P ∧ P.Nodup
      ∧ ∀ p, p ∈ P ↔ ∃ x ∈ handoff.ranges, ArdsPage kernelSize x.1 x.2 p := by
  unfold initBuddy at hinit
  obtain ⟨kernelSize, hks, hinit⟩ := bind_eq_some_iff.mp hinit
  obtain ⟨s, hs, hinit⟩ := bind_eq_some_iff.mp hinit
  have hranges := disjointRanges_of_usable hdisj
  obtain ⟨Q, hQ, hnd, hmem⟩ := consumeRanges_spec kernelSize _ 0 init s hranges.word
    (hranges.ardsPage kernelSize) bootInv_init hs
  rw [zero_add] at hQ
  obtain rfl : s.sealArena = boot := by
    split at hinit
    · cases hinit
    · exact Option.some.inj hinit
  refine ⟨kernelSize, Q, hks, hQ.inv, ?_, hnd, hmem⟩
  have hpages := hQ.inv.pages
  rw [hQ.fresh, pagesOf_nil, add_zero] at hpages
  exact hpages

/-! ## §3. Correctness of the memory map. -/

/-- Page `p` meets neither the lowest memory nor the kernel image nor the
framebuffer. -/
def OutsideReserved (handoff : BootHandoff) (kernelSize p : Nat) : Prop :=
  LOWEST_LIMIT ≤ PAGE_SIZE * p
    ∧ (PAGE_SIZE * (p + 1) ≤ KERNEL_BASE ∨ kernelEndAddr kernelSize ≤ PAGE_SIZE * p)
    ∧ ∀ f ∈ handoff.framebuffer, PAGE_SIZE * (p + 1) ≤ f.physicalBase
      ∨ f.physicalBase + f.byteSize ≤ PAGE_SIZE * p

/-- What the free lists should be after `init_buddy`. -/
structure BootMapCorrect (handoff : BootHandoff) (kernelSize : Nat) (s : State) : Prop where
  reserved : ∀ p ∈ s.freePages, OutsideReserved handoff kernelSize p
  /-- Every free page lies wholly inside one usable region. -/
  region : ∀ p ∈ s.freePages, ∃ r ∈ handoff.usable,
    ∀ a, PAGE_SIZE * p ≤ a → a < PAGE_SIZE * (p + 1) → a < 2 ^ 64 ∧ InRange r.range a
  /-- Every free page lies inside the zone whose list holds it. -/
  zone : ∀ i, ∀ p ∈ (s.zone i).pages, i.lo ≤ PAGE_SIZE * p ∧ PAGE_SIZE * (p + 1) ≤ i.hi
  /-- Every whole page of a region that does not wrap is free once, unless it
  is reserved. -/
  complete : ∀ r ∈ handoff.usable, r.physicalBase + r.length < 2 ^ 64 →
    ∀ p, r.physicalBase ≤ PAGE_SIZE * p → PAGE_SIZE * (p + 1) ≤ r.physicalBase + r.length →
      OutsideReserved handoff kernelSize p → s.freePages.count p = 1

/-- No range handed to `handle_ards`, trimmed to whole pages, is a non-empty
part of the kernel image. -/
def NoRangeInsideKernel (handoff : BootHandoff) (kernelSize : Nat) : Prop :=
  ∀ x ∈ handoff.ranges, ∀ b n, alignArds x.1 x.2 = some (b, n) → 0 < n →
    ¬ (KERNEL_BASE ≤ b ∧ b + n ≤ kernelEndAddr kernelSize)

/-- The aligned part of a range that does not wrap has all its whole pages. -/
theorem alignArds_covers {base len : Nat} (hw : base + len < 2 ^ 64) (hlo : base ≤ PAGE_SIZE * p)
    (hhi : PAGE_SIZE * (p + 1) ≤ base + len) :
    ∃ b n, alignArds base len = some (b, n) ∧ b + n < 2 ^ 64 ∧ b ≤ PAGE_SIZE * p
      ∧ PAGE_SIZE * (p + 1) ≤ b + n := by
  have hps : PAGE_SIZE = 4096 := rfl
  unfold alignArds
  rw [hps] at hlo hhi ⊢
  split
  next hal =>
    have haligned : u64 (base / 4096 * 4096 + 4096) = base / 4096 * 4096 + 4096 :=
      u64_of_lt (by omega)
    have hdrop : u64Sub (base / 4096 * 4096 + 4096) base = base / 4096 * 4096 + 4096 - base := by
      unfold u64Sub u64
      omega
    simp only [haligned, hdrop]
    rw [if_neg (by omega)]
    exact ⟨_, _, rfl, by omega, by omega, by omega⟩
  next hal => exact ⟨_, _, rfl, by omega, by omega, by omega⟩

/-- A free page of a zone lies in the zone. -/
theorem Zone.Wf.page_in_zone {i : ZoneId} {z : Zone} (hz : z.Wf i) (hp : p ∈ z.pages) :
    i.lo ≤ PAGE_SIZE * p ∧ PAGE_SIZE * (p + 1) ≤ i.hi := by
  rw [← z.pagesOf_blocks] at hp
  obtain ⟨b, hb, hpb⟩ := mem_pagesOf.mp hp
  obtain ⟨k, -, hbk⟩ := mem_flatMap.mp hb
  obtain ⟨hwf, hbz, -⟩ := hz.block k b hbk
  obtain ⟨h1, h2⟩ := hwf.mem_pages.mp hpb
  rw [← hbz]
  exact ⟨Nat.le_trans hwf.lo_le h1, Nat.le_trans h2 hwf.le_hi⟩

theorem kernelSize_lt (h : handoff.kernelSize = some kernelSize) : kernelSize < 2 ^ 32 := by
  cases handoff with
  | v2 =>
    obtain ⟨n, -, rfl⟩ := map_eq_some_iff.mp h
    exact Nat.mod_lt _ (by decide)
  | v1 =>
    cases h
    exact Nat.mod_lt _ (by decide)
  | absent => exact absurd h (by simp [BootHandoff.kernelSize])

/-- A page freed by a range is not reserved, unless the range lies inside the
kernel image. -/
theorem ardsPage_outsideReserved (hcond : NoRangeInsideKernel handoff kernelSize)
    (hx : x ∈ handoff.ranges) (hp : ArdsPage kernelSize x.1 x.2 p) :
    OutsideReserved handoff kernelSize p := by
  have hps : PAGE_SIZE = 4096 := rfl
  have hkb : KERNEL_BASE = 4096 * 4096 := rfl
  have hfb := framebuffer_valid handoff
  obtain ⟨r, -, hxr⟩ := mem_ranges hx
  obtain ⟨hword, -⟩ := regionRanges_subset hfb hxr
  have haddr : ∀ a, PAGE_SIZE * p ≤ a → a < PAGE_SIZE * (p + 1) →
      a < 2 ^ 64 ∧ InRange x a := fun a h1 h2 => ardsPage_inRange hword.1 hword.2 hp h1 h2
  obtain ⟨b, n, halign, hend, h1, h2, h3, h4⟩ := hp
  refine ⟨h3, ?_, ?_⟩
  · rcases h4 with h4 | h4 | h4
    · left
      rw [hps, hkb] at *
      omega
    · exact .inr h4
    · exact absurd h4 (hcond x hx b n halign (by rw [hps] at h1 h2; omega))
  · intro f hf
    obtain ⟨hfs, -⟩ := framebuffer_valid_range (hfb f hf)
    by_contra hnot
    -- the first framebuffer address inside the page, or the page's own first one
    obtain ⟨a, ha1, ha2, ha3⟩ : ∃ a, (PAGE_SIZE * p ≤ a ∧ a < PAGE_SIZE * (p + 1))
        ∧ f.physicalBase ≤ a ∧ a < f.physicalBase + f.byteSize :=
      ⟨max (PAGE_SIZE * p) f.physicalBase, by rw [hps] at *; omega, by omega, by omega⟩
    obtain ⟨hlt, hin⟩ := haddr a ha1.1 ha1.2
    have := regionRanges_avoids hfb hxr hf hlt hin
    omega

/-- **The boot memory map.**  After `init_buddy` the free lists are correct
exactly when no range lies wholly inside the kernel image. -/
theorem boot_map_iff {handoff : BootHandoff} {kernelSize : Nat} {boot : BootState}
    (hdisj : handoff.DisjointUsable) (hks : handoff.kernelSize = some kernelSize)
    (hinit : initBuddy handoff = some boot) :
    BootMapCorrect handoff kernelSize boot.state ↔ NoRangeInsideKernel handoff kernelSize := by
  obtain ⟨ks, P, hks', hinv, hfree, hnd, hmem⟩ := initBuddy_spec hdisj hinit
  obtain rfl : ks = kernelSize := Option.some.inj (hks'.symm.trans hks)
  have hfb := framebuffer_valid handoff
  have hranges := disjointRanges_of_usable hdisj
  have hps : PAGE_SIZE = 4096 := rfl
  have hkb : KERNEL_BASE = 4096 * 4096 := rfl
  have hlow : LOWEST_LIMIT = 4096 * 512 := rfl
  constructor
  · -- the first page of a range inside the kernel image would be free
    rintro hok x hx b n halign hn ⟨hkb1, hkb2⟩
    obtain ⟨hw1, hw2⟩ := hranges.word x hx
    obtain ⟨-, -, ⟨q, rfl⟩, m, rfl⟩ := alignArds_aligned hw1 hw2 halign
    have hke : kernelEndAddr ks < 2 ^ 64 := by
      have := kernelSize_lt hks
      unfold kernelEndAddr
      rw [hps, hkb]
      omega
    have hq : q ∈ boot.state.freePages := by
      rw [hfree, hmem]
      refine ⟨x, hx, _, _, halign, by omega, Nat.le_refl _, ?_, ?_, .inr (.inr ⟨hkb1, hkb2⟩)⟩
      · rw [hps] at *
        omega
      · rw [hps, hkb] at *
        omega
    rcases (hok.reserved q hq).2.1 with h | h
    · rw [hps, hkb] at *
      omega
    · omega
  · intro hcond
    refine ⟨fun p hp => ?_, fun p hp => ?_, fun i p hp => (hinv.zones i).page_in_zone hp, ?_⟩
    · rw [hfree, hmem] at hp
      obtain ⟨x, hx, hpage⟩ := hp
      exact ardsPage_outsideReserved hcond hx hpage
    · rw [hfree, hmem] at hp
      obtain ⟨x, hx, hpage⟩ := hp
      obtain ⟨r, hr, hxr⟩ := mem_ranges hx
      obtain ⟨hword, hsub⟩ := regionRanges_subset hfb hxr
      refine ⟨r, hr, fun a h1 h2 => ?_⟩
      obtain ⟨hlt, hin⟩ := ardsPage_inRange hword.1 hword.2 hpage h1 h2
      exact ⟨hlt, hsub a hlt hin⟩
    · intro r hr hnw p hlo hhi hout
      obtain ⟨hrm, husable⟩ := mem_filter.mp hr
      obtain ⟨x, hx, hxw, hx1, hx2⟩ := exists_regionRange hfb (by simpa using husable) hnw hlo hhi
        hout.2.2
      obtain ⟨b, n, halign, hend, hb, hn⟩ := alignArds_covers hxw hx1 hx2
      rw [hfree]
      apply Multiset.count_eq_one_of_mem hnd
      rw [hmem]
      refine ⟨x, mem_flatMap.mpr ⟨r, hrm, hx⟩, b, n, halign, hend, hb, hn, hout.1, ?_⟩
      rcases hout.2.1 with h | h
      · left
        rw [hps, hkb] at *
        omega
      · exact .inr (.inl h)

/-- A map with one usable region of five pages below the kernel. -/
def fivePageMap : BootHandoff :=
  .v2 (some 0x10000)
    (some [⟨PAGE_SIZE * 512, PAGE_SIZE * 5, .usable, by decide, by decide⟩]) none

theorem initBuddy_fivePageMap : initBuddy fivePageMap = some fivePages.sealArena := by
  show ((handleArds 0x10000 init (PAGE_SIZE * 512) (PAGE_SIZE * 5)).bind some).bind
    (fun s => if 1 = 0 then none else some s.sealArena) = _
  rw [handleArds_uncut _ _ (by omega) (by omega) (.inl (by omega))]
  rfl

theorem boot_map_fivePageMap : BootMapCorrect fivePageMap 0x10000 fivePages.sealArena.state
      ↔ NoRangeInsideKernel fivePageMap 0x10000 :=
  boot_map_iff (pairwise_singleton _ _) rfl initBuddy_fivePageMap

/-- A map with one usable region: the first page of a kernel of 16 pages. -/
def kernelPageMap : BootHandoff :=
  .v2 (some 0x10000)
    (some [⟨PAGE_SIZE * 4096, PAGE_SIZE * 1, .usable, by decide, by decide⟩]) none

/-- The free lists `init_buddy` builds from it. -/
def kernelPageBoot : BootState :=
  (insertRange .dma32 init (PAGE_SIZE * 4096) (PAGE_SIZE * 1)).getD init

/-- A usable region wholly inside the kernel image is freed. -/
theorem region_inside_kernel_is_freed :
    kernelPageMap.DisjointUsable ∧ initBuddy kernelPageMap = some kernelPageBoot.sealArena
      ∧ ¬ BootMapCorrect kernelPageMap 0x10000 kernelPageBoot.sealArena.state := by
  refine ⟨pairwise_singleton _ _, ?_, fun hok => ?_⟩
  · show ((handleArds 0x10000 init (PAGE_SIZE * 4096) (PAGE_SIZE * 1)).bind some).bind
      (fun s => if 1 = 0 then none else some s.sealArena) = _
    rw [handleArds_uncut _ init (by omega) (by omega) (.inr (by decide))]
    rfl
  · -- page 4096 is the page of the kernel base
    have hpage : 4096 ∈ kernelPageBoot.sealArena.state.freePages := by
      rw [← State.pagesOf_freeBlocks, mem_pagesOf]
      refine ⟨⟨.dma32, PAGE_SIZE * 4096, PAGE_SIZE, 0, 0⟩, by decide, ?_⟩
      decide
    have hout := (hok.reserved 4096 hpage).2.1
    revert hout
    decide

end BigOS.Mm.Buddy
