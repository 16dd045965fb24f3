/-
  BigOS.Fs.Bcache.Progress — the cache serves its users while writes succeed.

  `get` fails only when every slot is referenced, or dirty and protected.  A flush
  of given blocks goes through, and so does `sync_device` when nothing is
  protected; the latter leaves nothing dirty.

  Main results:
    • `GuardsIn` — the protected blocks are some of a list, each of them once,
    • `protectBlocks_guardsIn`, `unprotectBlocks_guardsIn` — the two calls,
    • `exists_available`, `get_available` — `get` finds a slot,
    • `get_refCount` — and references it, and no other,
    • `orderedFlush_ok`, `syncDevice_ok` — the flushes.
-/
import BigOS.Lib.Slots
import BigOS.Fs.Bcache.Coherence

namespace BigOS.Fs.Bcache

open Function List

variable {blocks : List Nat} {dev : Option Nat}

variable {β : Type} {s s' : State β} {i d b p : Nat} {io : Nat → WriteIo β}

/-! ## §1. The table of protected blocks is left alone. -/

@[simp] theorem writeBack_guards (s : State β) (i : Nat) (canBlock : Bool) (io : WriteIo β) :
    (writeBack s i canBlock io).2.guards = s.guards := by
  unfold writeBack
  simp only
  split
  · rfl
  · split <;> rfl

theorem pickVictim_guards (s : State β) (canBlock : Bool) (io : WriteIo β) :
    (pickVictim s canBlock io).2.guards = s.guards := by
  unfold pickVictim
  split
  · rfl
  split
  · rfl
  split
  · rfl
  rename_i i _
  have hone := writeBack_guards s i canBlock io
  split
  · rename_i s1 heq
    rwa [heq] at hone
  · rename_i status s1 _ heq
    rwa [heq] at hone

theorem ready_of_initialized (h : s.initialized) : ready s = s := if_pos h

/-- `get` leaves the table, and sets nothing up when the cache is initialized. -/
theorem get_frame (hkeys : Keys s) (h : s.initialized) (dev : Option Nat) (b : Nat)
    (canBlock allocOk : Bool) (wio : WriteIo β) (rio : ReadIo β) :
    (get s dev b canBlock allocOk wio rio).2.guards = s.guards ∧
      (get s dev b canBlock allocOk wio rio).2.initialized := by
  have hvictim := And.intro (pickVictim_guards s true wio)
    ((pickVictim_spec hkeys true wio).1.started h)
  rcases get_cases s dev b canBlock allocOk wio rio with heq | ⟨d, _, hout⟩
  · rw [heq]
    exact ⟨rfl, h⟩
  generalize get s dev b canBlock allocOk wio rio = result at hout
  have hready : (ready s).initialized := by rw [ready_of_initialized h, h]
  rw [← ready_of_initialized h] at hvictim ⊢
  cases hout with
  | hit => exact ⟨rfl, hready⟩
  | noVictim => exact hvictim
  | failed i left => cases left <;> exact hvictim
  | loaded => exact hvictim

theorem keptByWrites_guards (s : State β) : KeptByWrites fun t : State β => t.guards = s.guards :=
  fun _ _ _ _ _ _ h => (writeBack_guards ..).trans h

theorem syncDevice_guards (s : State β) (dev : Option Nat) (canBlock : Bool)
    (io : Nat → WriteIo β) : (syncDevice s dev canBlock io).2.guards = s.guards :=
  syncDevice_rule (keptByWrites_guards s) rfl dev canBlock io

/-! ## §2. Which blocks are protected. -/

/-- The protected blocks are blocks of the device that the list names, and no
block has two entries. -/
structure GuardsIn (s : State β) (d : Nat) (blocks : List Nat) : Prop where
  block : ∀ p < PROTECTED_BLOCKS_MAX, (s.guards p).used →
    (s.guards p).dev = some d ∧ (s.guards p).blockNo ∈ blocks
  inj : ∀ p < PROTECTED_BLOCKS_MAX, ∀ q < PROTECTED_BLOCKS_MAX, (s.guards p).used →
    (s.guards q).used → (s.guards p).blockNo = (s.guards q).blockNo → p = q

theorem GuardsIn.congr (h : GuardsIn s d blocks) (heq : s'.guards = s.guards) :
    GuardsIn s' d blocks := by
  refine ⟨?_, ?_⟩ <;> rw [heq]
  · exact h.block
  · exact h.inj

theorem GuardsIn.mono {blocks' : List Nat} (h : GuardsIn s d blocks)
    (hsub : ∀ b ∈ blocks, b ∈ blocks') : GuardsIn s d blocks' :=
  ⟨fun p hp hused => ⟨(h.block p hp hused).1, hsub _ (h.block p hp hused).2⟩, h.inj⟩

theorem isProtected_iff : isProtected s dev b ↔ ∃ p < PROTECTED_BLOCKS_MAX,
      (s.guards p).used ∧ (s.guards p).dev = dev ∧ (s.guards p).blockNo = b := by
  unfold isProtected
  simp [and_assoc]

theorem GuardsIn.mem (h : GuardsIn s d blocks) (hb : isProtected s dev b) :
    dev = some d ∧ b ∈ blocks := by
  obtain ⟨p, hp, hused, hdev, hblock⟩ := isProtected_iff.mp hb
  obtain ⟨hd, hmem⟩ := h.block p hp hused
  exact ⟨hdev.symm.trans hd, hblock ▸ hmem⟩

theorem GuardsIn.not_protected (h : GuardsIn s d []) (dev : Option Nat) (b : Nat) :
    isProtected s dev b = false := by
  rw [Bool.eq_false_iff]
  exact fun hb => absurd (h.mem hb).2 not_mem_nil

/-- The table has room while the list is shorter than it. -/
theorem GuardsIn.freeGuard_some (h : GuardsIn s d blocks)
    (hlen : blocks.length < PROTECTED_BLOCKS_MAX) : ∃ p, freeGuard s = some p := by
  obtain ⟨p, hp, hfree⟩ := Lib.Slots.exists_vacant (n := PROTECTED_BLOCKS_MAX)
    (p := fun p => (s.guards p).used = true) (fun p => (s.guards p).blockNo)
    blocks (fun p hp hused => (h.block p hp hused).2) h.inj hlen
  unfold freeGuard
  rw [← Option.isSome_iff_exists, List.find?_isSome]
  exact ⟨p, mem_range.mpr hp, by simpa using hfree⟩

/-- One more entry, for a block that had none. -/
theorem GuardsIn.add (h : GuardsIn s d blocks) (hb : b ∈ blocks)
    (hnew : isProtected s (some d) b = false) (p : Nat) :
    GuardsIn { s with guards := update s.guards p ⟨some d, b, true⟩ } d blocks := by
  -- An old entry is not for the new block.
  have hother : ∀ q < PROTECTED_BLOCKS_MAX, (s.guards q).used → (s.guards q).blockNo ≠ b := by
    intro q hq hused hqb
    have hprot := isProtected_iff.mpr ⟨q, hq, hused, (h.block q hq hused).1, hqb⟩
    rw [hnew] at hprot
    cases hprot
  constructor
  · intro q hq hused
    by_cases hqp : q = p
    · subst hqp
      simp only [update_self]
      exact ⟨trivial, hb⟩
    · simp only [update_of_ne hqp] at hused ⊢
      exact h.block q hq hused
  · intro q hq r hr huq hur heq
    by_cases hqp : q = p <;> by_cases hrp : r = p
    · exact hqp.trans hrp.symm
    · simp only [hqp, update_self, update_of_ne hrp] at hur heq
      exact absurd heq.symm (hother r hr hur)
    · simp only [hrp, update_self, update_of_ne hqp] at huq heq
      exact absurd heq (hother q hq huq)
    · simp only [update_of_ne hqp, update_of_ne hrp] at huq hur heq
      exact h.inj q hq r hr huq hur heq

theorem protectBlocks_guardsIn (h : GuardsIn s d blocks) (todo : List Nat)
    (hsub : ∀ b ∈ todo, b ∈ blocks) : GuardsIn (protectBlocks s (some d) todo).2 d blocks ∧
      (blocks.length < PROTECTED_BLOCKS_MAX → (protectBlocks s (some d) todo).1 = .success) := by
  induction todo generalizing s with
  | nil => exact ⟨h, fun _ => rfl⟩
  | cons b rest ih =>
    have hrest : ∀ c ∈ rest, c ∈ blocks := fun c hc => hsub c (mem_cons_of_mem b hc)
    unfold protectBlocks
    cases hprot : isProtected s (some d) b with
    | true =>
      exact ih h hrest
    | false =>
      cases hfree : freeGuard s with
      | none =>
        refine ⟨h, fun hlen => ?_⟩
        obtain ⟨p, hp⟩ := h.freeGuard_some hlen
        cases hfree.symm.trans hp
      | some p => exact ih (h.add (hsub b mem_cons_self) hprot p) hrest

theorem guardOf_some (h : guardOf s dev b = some p) :
    p < PROTECTED_BLOCKS_MAX ∧ (s.guards p).used ∧ (s.guards p).blockNo = b := by
  unfold guardOf at h
  have hmem := mem_range.mp (mem_of_find?_eq_some h)
  have hp := List.find?_some h
  simp only [Bool.and_eq_true, beq_iff_eq] at hp
  exact ⟨hmem, hp.1.1, hp.2⟩

theorem guardOf_none (h : guardOf s dev b = none) (hp : p < PROTECTED_BLOCKS_MAX)
    (hused : (s.guards p).used) (hdev : (s.guards p).dev = dev) : (s.guards p).blockNo ≠ b := by
  unfold guardOf at h
  rw [List.find?_eq_none] at h
  intro hb
  have hnot := h p (mem_range.mpr hp)
  simp [hused, hdev, hb] at hnot

/-- Once a list that names all protected blocks is unprotected, none is left. -/
theorem unprotectBlocks_guardsIn (h : GuardsIn s d blocks) :
    GuardsIn (unprotectBlocks s (some d) blocks) d [] := by
  induction blocks generalizing s with
  | nil => exact h
  | cons b rest ih =>
    unfold unprotectBlocks
    cases hg : guardOf s (some d) b with
    | none =>
      apply ih
      refine ⟨fun p hp hused => ?_, h.inj⟩
      obtain ⟨hdev, hmem⟩ := h.block p hp hused
      exact ⟨hdev, (mem_cons.mp hmem).resolve_left (guardOf_none hg hp hused hdev)⟩
    | some p =>
      obtain ⟨hp, hpused, hpb⟩ := guardOf_some hg
      apply ih
      -- The entry of `b` goes; by injectivity no other entry is for it.
      have hold : ∀ q, (update s.guards p ⟨none, 0, false⟩ q).used →
          q ≠ p ∧ update s.guards p ⟨none, 0, false⟩ q = s.guards q := by
        intro q hused
        by_cases hqp : q = p
        · subst hqp
          rw [update_self] at hused
          cases hused
        · exact ⟨hqp, update_of_ne hqp ..⟩
      constructor
      · intro q hq hused
        obtain ⟨hqp, heq⟩ := hold q hused
        simp only [heq] at hused ⊢
        obtain ⟨hdev, hmem⟩ := h.block q hq hused
        refine ⟨hdev, (mem_cons.mp hmem).resolve_left fun hqb => ?_⟩
        exact hqp (h.inj q hq p hp hused hpused (hqb.trans hpb.symm))
      · intro q hq r hr huq hur heq
        obtain ⟨_, hq'⟩ := hold q huq
        obtain ⟨_, hr'⟩ := hold r hur
        simp only [hq', hr'] at huq hur heq
        exact h.inj q hq r hr huq hur heq

/-! ## §3. `get` finds a slot. -/

/-- A slot that eviction can take while writes succeed. -/
def Available (s : State β) (i : Nat) : Prop :=
  (s.slots i).used → dirtyVictim s i

/-- The references are those of the list, and the protected blocks those of the
plan; both together are fewer than the slots. -/
theorem exists_available {held : List Nat} (hkeys : Keys s) (h : GuardsIn s d blocks)
    (hheld : ∀ i, (s.slots i).refCount ≠ 0 → i ∈ held)
    (hlen : held.length + blocks.length < CACHE_BLOCKS) : ∃ i < CACHE_BLOCKS, Available s i := by
  have hguard : ∀ i, (s.slots i).refCount = 0 → dirtyVictim s i = false →
      isProtected s (s.slots i).dev (s.slots i).blockNo = true := by
    intro i href hblocked
    simp only [dirtyVictim, href, beq_self_eq_true, Bool.true_and, Bool.not_eq_false',
      Bool.and_eq_true] at hblocked
    exact hblocked.2
  -- A slot in the way is charged to its reference, or to the block it holds.
  have hvacant := Lib.Slots.exists_vacant (n := CACHE_BLOCKS)
    (p := fun i => (s.slots i).used = true ∧ dirtyVictim s i = false)
    (fun i => if (s.slots i).refCount ≠ 0 then Sum.inl i else Sum.inr (s.slots i).blockNo)
    (held.map Sum.inl ++ blocks.map Sum.inr)
  obtain ⟨i, hi, hfree⟩ := hvacant
    (fun i _ hp => by
      by_cases href : (s.slots i).refCount = 0
      · simp [href, (h.mem (hguard i href hp.2)).2]
      · simp [href, hheld i href])
    (fun i _ j _ hpi hpj heq => by
      by_cases hri : (s.slots i).refCount = 0 <;> by_cases hrj : (s.slots j).refCount = 0
      · simp only [hri, hrj, ne_eq, not_true_eq_false, if_false, Sum.inr.injEq] at heq
        have hdi := (h.mem (hguard i hri hpi.2)).1
        have hdj := (h.mem (hguard j hrj hpj.2)).1
        exact hkeys.unique i j d _ ⟨hpi.1, hdi, rfl⟩ ⟨hpj.1, hdj, heq.symm⟩
      · simp [hri, hrj] at heq
      · simp [hri, hrj] at heq
      · simpa [hri, hrj] using heq)
    (by simpa using hlen)
  refine ⟨i, hi, fun hused => ?_⟩
  by_contra hblocked
  exact hfree ⟨hused, by simpa using hblocked⟩

theorem writeBack_ok (hdev : (s.slots i).dev = some d) : (writeBack s i true .ok).1 = .success := by
  unfold writeBack
  simp [hdev]

theorem pickVictim_available (hkeys : Keys s) (hi : i < CACHE_BLOCKS) (h : Available s i) :
    ∃ j, (pickVictim s true .ok).1 = some j := by
  unfold pickVictim
  cases hfree : freeSlot s with
  | some j => exact ⟨j, rfl⟩
  | none =>
    cases hclean : lru s (cleanVictim s) with
    | some j => exact ⟨j, rfl⟩
    | none =>
      cases hdirty : lru s (dirtyVictim s) with
      | none =>
        have hvictim := h (freeSlot_none hfree hi)
        rw [lru_none hdirty hi] at hvictim
        cases hvictim
      | some j =>
        obtain ⟨d, hd⟩ := hkeys.device j (freeSlot_none hfree (lru_some hdirty).2)
        have hok := writeBack_ok hd
        simp only
        split
        · exact ⟨j, rfl⟩
        · rename_i status s1 hne heq
          rw [heq] at hok
          exact absurd hok hne

/-- With a slot that can be taken `get` returns one. -/
theorem get_available (hkeys : Keys s) (hinit : s.initialized) (hi : i < CACHE_BLOCKS)
    (h : Available s i) (d b : Nat) : ∃ j, (get s (some d) b true true .ok .ok).1 = some j := by
  obtain ⟨j, hj⟩ := pickVictim_available hkeys hi h
  unfold get
  simp only [hinit, Bool.not_true, Bool.false_eq_true, if_false, Bool.false_and, if_true]
  split
  · exact ⟨_, rfl⟩
  split
  · rename_i s1 heq
    rw [heq] at hj
    cases hj
  · exact ⟨_, rfl⟩

/-- The references after `get`. -/
theorem get_refCount (hinv : Inv s) (hinit : s.initialized) (b : Nat) (wio : WriteIo β)
    (hwrap : ∀ i, (s.slots i).refCount < 2 ^ 32 - 1) (j : Nat) :
    ((get s (some d) b true true wio .ok).2.slots j).refCount = (s.slots j).refCount +
      if (get s (some d) b true true wio .ok).1 = some j then 1 else 0 := by
  obtain ⟨hpick, _, hvictim, _⟩ := pickVictim_spec hinv.toKeys true wio
  -- Eviction leaves the references.
  have hsame : ∀ k, ((pickVictim s true wio).2.slots k).refCount = (s.slots k).refCount := by
    intro k
    rcases hpick.slot k with hk | hd
    · exact hk.refCount
    · exact hd.refCount.trans hd.free.symm
  rcases get_cases s (some d) b true true wio .ok with heq | ⟨d', hd', hout⟩
  · rw [heq]
    simp
  generalize get s (some d) b true true wio .ok = result at hout
  cases hout with
  | hit i =>
    rw [ready_of_initialized hinit]
    by_cases hji : j = i
    · subst hji
      have hw := hwrap j
      simp only [Bcache.hit, State.setSlot, update_self, if_true]
      exact Nat.mod_eq_of_lt (by omega)
    · have hij : ¬i = j := fun h => hji h.symm
      simp [Bcache.hit, State.setSlot, update_of_ne hji, hij]
  | noVictim =>
    rw [ready_of_initialized hinit]
    simpa using hsame j
  | failed i left _ _ hr => cases hr
  | loaded i _ hv =>
    rw [ready_of_initialized hinit] at hv ⊢
    by_cases hji : j = i
    · subst hji
      -- The slot that is loaded was not referenced.
      have hzero : (s.slots j).refCount = 0 := by
        by_contra href
        have hk := hpick.kept href
        have hused := hk.used.trans (hinv.pinned j href)
        exact href (hk.refCount.symm.trans ((hvictim j hv).2 hused).1)
      simp [Bcache.load, State.setSlot, hzero]
    · have hij : ¬i = j := fun h => hji h.symm
      simpa [Bcache.load, State.setSlot, update_of_ne hji, hij] using hsame j

/-! ## §4. The flushes go through. -/

theorem syncBlock_ok (s : State β) (d b : Nat) :
    (syncBlock s (some d) b true .ok).1 = .success := by
  unfold syncBlock
  rw [if_neg (by simp)]
  split
  · rfl
  · rename_i i hfind
    split
    · rfl
    · exact writeBack_ok (findSlot_some hfind).2.2.1

theorem flushBlocks_ok (s : State β) (d : Nat) {blocks : List (Nat × WriteIo β)}
    (h : ∀ e ∈ blocks, e.2 = .ok) : (flushBlocks (some d) true s blocks).1 = .success := by
  induction blocks generalizing s with
  | nil => rfl
  | cons head rest ih =>
    obtain ⟨b, io⟩ := head
    obtain rfl : io = .ok := h (b, io) mem_cons_self
    have hone := syncBlock_ok s d b
    unfold flushBlocks
    split
    · exact ih _ (fun e he => h e (mem_cons_of_mem _ he))
    · rename_i status s1 hne heq
      rw [heq] at hone
      exact absurd hone hne

theorem orderedFlush_ok (s : State β) (d : Nat) (blocks : List (Nat × WriteIo β))
    (h : ∀ e ∈ blocks, e.2 = .ok) (hlen : blocks.length ≤ ORDERED_FLUSH_BLOCKS_MAX) :
    (orderedFlush s (some d) [blocks] true).1 = .success := by
  have hone := flushBlocks_ok s d h
  unfold orderedFlush
  rw [if_neg (by simp [ORDERED_FLUSH_PHASES_MAX]), if_neg (by simp)]
  unfold flushPhases
  rw [if_neg (by omega)]
  split
  · rfl
  · rename_i status s1 hne heq
    rw [heq] at hone
    exact absurd hone hne

/-- One slot of `sync_device`: it is clean afterwards, and no slot becomes dirty. -/
theorem syncSlot_ok (hio : ∀ k, io k = .ok)
    {acc : Status × State β} (hkeys : Keys acc.2) (hguards : GuardsIn acc.2 d [])
    (hacc : acc.1 = .success) (i : Nat) :
    let r := syncSlot true io (fun slot => slot.dev == some d) acc i
    r.1 = .success ∧ ((r.2.slots i).used = true → (r.2.slots i).dev = some d →
      (r.2.slots i).dirty = false) := by
  unfold syncSlot
  simp only
  split
  · rename_i hskip
    refine ⟨hacc, fun hused hdev => ?_⟩
    simpa [hused, hdev] using hskip
  rename_i hskip
  simp only [Bool.or_eq_true, Bool.not_eq_true', not_or, Bool.not_eq_false] at hskip
  rw [hguards.not_protected]
  simp only [Bool.false_eq_true, if_false]
  obtain ⟨d', hholds⟩ := hkeys.holds hskip.1.1
  have hok := writeBack_ok hholds.2.1
  rw [hio i]
  refine ⟨by rw [hok, hacc]; rfl, fun _ _ => ?_⟩
  rw [writeBack_fst_success hok hholds, slots_setSlot_self]

/-- `sync_device` succeeds and leaves nothing of the device dirty. -/
theorem syncDevice_ok (hio : ∀ k, io k = .ok) (hkeys : Keys s) (hguards : GuardsIn s d []) :
    (syncDevice s (some d) true io).1 = .success ∧
      ∀ i, ((syncDevice s (some d) true io).2.slots i).used →
        ((syncDevice s (some d) true io).2.slots i).dev = some d →
        ((syncDevice s (some d) true io).2.slots i).dirty = false := by
  -- Along the scan: what was visited is clean.
  have hloop : ∀ (slots : List Nat) (acc : Status × State β), Keys acc.2 →
      GuardsIn acc.2 d [] → acc.1 = .success →
      let r := slots.foldl (syncSlot true io (fun slot => slot.dev == some d)) acc
      r.1 = .success ∧ ∀ i, (r.2.slots i).used = true → (r.2.slots i).dev = some d →
        (i ∈ slots ∨ (acc.2.slots i).dirty = false) → (r.2.slots i).dirty = false := by
    intro slots
    induction slots with
    | nil =>
      refine fun acc _ _ hacc => ⟨hacc, fun i _ _ hi => ?_⟩
      exact hi.resolve_left not_mem_nil
    | cons k rest ih =>
      intro acc hkeys hguards hacc
      obtain ⟨hst, hclean⟩ := syncSlot_ok hio hkeys hguards hacc k
      have hone : Flushes acc.2 (syncSlot true io (fun slot => slot.dev == some d) acc k).2 :=
        syncSlot_rule (keptByWrites_flushes hkeys) acc k (Flushes.refl _)
      have hkeys' := hone.keys hkeys
      have hguards' : GuardsIn (syncSlot true io (fun slot => slot.dev == some d) acc k).2 d [] :=
        hguards.congr (syncSlot_rule (keptByWrites_guards _) acc k rfl)
      obtain ⟨hst', hrest⟩ := ih _ hkeys' hguards' hst
      refine ⟨hst', fun i hused hdev hi => hrest i hused hdev ?_⟩
      have hflush : Flushes _ (rest.foldl (syncSlot true io (fun slot => slot.dev == some d))
          (syncSlot true io (fun slot => slot.dev == some d) acc k)).2 :=
        foldl_syncSlot_rule (keptByWrites_flushes hkeys') rest _ (Flushes.refl _)
      obtain ⟨hk, hh⟩ := hflush.holds ⟨hused, hdev, rfl⟩
      rcases hi with hi | hi
      · rcases mem_cons.mp hi with rfl | hi
        · exact .inr (hclean hh.1 hh.2.1)
        · exact .inl hi
      right
      rw [Bool.eq_false_iff]
      intro hd
      rw [(hone.holds hh).1.dirty hd] at hi
      cases hi
  have hrun := hloop (List.range CACHE_BLOCKS) (.success, s) hkeys hguards rfl
  have hkeys' := (syncDevice_flushes hkeys (some d) true io).keys hkeys
  unfold syncDevice at hkeys' ⊢
  rw [if_neg (by simp)] at hkeys' ⊢
  refine ⟨hrun.1, fun i hused hdev => hrun.2 i hused hdev (.inl ?_)⟩
  exact mem_range.mpr (hkeys'.range i hused)

end BigOS.Fs.Bcache
