/-
  BigOS.Fs.Bigfs.Fsync — `fsync` after transient write errors.

  A flush protects the blocks of the commit plan and unprotects them only when it
  has gone through.  While the plan that names them is kept, the next flush takes
  them up again: `fsync` then succeeds once the device does, and leaves nothing
  dirty.  When another operation starts a plan of its own first, nothing
  remembers them, and `sync_device` refuses them for good.

  Every step of a flush keeps `Tended`; the rules `Stage.andThen` and
  `Stage.finish` put the steps together.

  Main results:
    • `Tended` — references and protected blocks are those the mount knows of,
    • `journalCommitFlush_spec` — what a flush keeps, and when it goes through,
    • `fsync_recovers` — `fsync` once the device works again,
    • `forgotten_plan_wedges_fsync` — an operation that fails, and an unrelated one.
-/
import BigOS.Fs.Bcache.Progress
import BigOS.Fs.Bigfs.Mount

namespace BigOS.Fs.Bigfs

open BigOS.Fs.Bcache BigOS.Fs.Journal Function List

variable {β : Type} {m m' : Mount β} {pins : List Nat} {i b now : Nat} {cache : Bcache.State β}

/-! ## §1. The invariant. -/

/-- The references of the slots are the given ones, and what is protected is in the
commit plan. -/
structure Tended (m : Mount β) (pins : List Nat) : Prop where
  inv : Bcache.Inv m.cache
  started : m.cache.initialized
  refs : ∀ i, (m.cache.slots i).refCount = pins.count i
  guards : GuardsIn m.cache 0 m.plan
  pending : m.pending = false → m.plan = []

/-- Only the number of references of a slot matters. -/
theorem Tended.perm {pins' : List Nat} (h : Tended m pins) (hp : pins.Perm pins') :
    Tended m pins' :=
  { h with refs := fun i => (h.refs i).trans (hp.count_eq i) }

theorem Tended.referenced (h : Tended m pins) (hi : (m.cache.slots i).refCount ≠ 0) : i ∈ pins := by
  rw [h.refs i] at hi
  exact count_pos_iff.mp (Nat.pos_of_ne_zero hi)

/-- A change of the cache that leaves references and protected blocks alone. -/
theorem Tended.same (h : Tended m pins) (hinv : Bcache.Inv cache) (hstarted : cache.initialized)
    (hrefs : ∀ i, (cache.slots i).refCount = (m.cache.slots i).refCount)
    (hguards : cache.guards = m.cache.guards) :
    Tended { m with cache := cache, now := now } pins where
  inv := hinv
  started := hstarted
  refs i := (hrefs i).trans (h.refs i)
  guards := h.guards.congr hguards
  pending := h.pending

theorem Tended.flushes (h : Tended m pins)
    (hflush : Flushes m.cache cache) (hguards : cache.guards = m.cache.guards) :
    Tended { m with cache := cache, now := now } pins := by
  apply h.same (hflush.inv h.inv) (hflush.started h.started) ?_ hguards
  intro i
  rcases hflush.slot i with hk | hd
  · exact hk.refCount
  · exact hd.refCount.trans hd.free.symm

/-! ## §2. Blocks. -/

theorem Tended.getBlock (h : Tended m pins) (hfew : pins.length < 2 ^ 32 - 1)
    (io : Nat → WriteIo β) (b : Nat) :
    Tended (getBlock io m b).2 ((getBlock io m b).1.toList ++ pins) := by
  have hwrap : ∀ j, (m.cache.slots j).refCount < 2 ^ 32 - 1 := fun j => by
    rw [h.refs j]
    exact lt_of_le_of_lt count_le_length hfew
  have hreg : Regular m.cache (.get (some 0) b true true (io m.now) .ok) :=
    ⟨fun j _ => hwrap j, fun x hx => absurd hx (by simp)⟩
  obtain ⟨hguards, hinit⟩ := get_frame h.inv.toKeys h.started (some 0) b true true (io m.now) .ok
  refine ⟨get_inv h.inv hreg, hinit, fun j => ?_, h.guards.congr hguards, h.pending⟩
  have hcount := get_refCount (d := 0) h.inv h.started b (io m.now) hwrap j
  unfold Bigfs.getBlock
  rw [hcount, h.refs j, count_append]
  cases hget : (Bcache.get m.cache (some 0) b true true (io m.now) .ok).1 with
  | none => simp
  | some k =>
    by_cases hkj : k = j
    · simp [hkj, Nat.add_comm]
    · simp [hkj]

theorem store_refCount (s : Bcache.State β) (i : Nat) (x : β) (j : Nat) :
    ((store s i x).slots j).refCount = (s.slots j).refCount := by
  unfold store
  split
  · rfl
  simp only
  split
  · rfl
  · by_cases hji : j = i
    · subst hji
      simp [State.setSlot]
    · simp [State.setSlot, update_of_ne hji]

theorem store_guards (s : Bcache.State β) (i : Nat) (x : β) :
    (store s i x).guards = s.guards ∧ (store s i x).initialized = s.initialized := by
  unfold store
  split
  · exact ⟨rfl, rfl⟩
  · simp only
    split <;> exact ⟨rfl, rfl⟩

theorem markDirty_same (s : Bcache.State β) (i j : Nat) :
    ((markDirty s i).slots j).refCount = (s.slots j).refCount ∧
      (markDirty s i).guards = s.guards ∧ (markDirty s i).initialized = s.initialized := by
  unfold markDirty
  split
  · exact ⟨rfl, rfl, rfl⟩
  refine ⟨?_, rfl, rfl⟩
  by_cases hji : j = i
  · subst hji
    simp [State.setSlot]
  · simp [State.setSlot, update_of_ne hji]

theorem Tended.edit (h : Tended m pins) (i : Nat) (x : β) : Tended (edit m i x) pins := by
  obtain ⟨hg, hs⟩ := store_guards m.cache i x
  have hmark := markDirty_same (store m.cache i x) i
  apply h.same (h.inv.store x).markDirty ((hmark 0).2.2.trans (hs.trans h.started))
  · exact fun j => (hmark j).1.trans (store_refCount m.cache i x j)
  · exact (hmark 0).2.1.trans hg

theorem put_guards (s : Bcache.State β) (i : Nat) :
    (put s i).guards = s.guards ∧ (put s i).initialized = s.initialized := by
  unfold put
  split <;> exact ⟨rfl, rfl⟩

/-- A reference is given back. -/
theorem Tended.putBlock (h : Tended m (i :: pins)) : Tended (putBlock m i) pins where
  inv := h.inv.put
  started := (put_guards m.cache i).2.trans h.started
  refs j := by
    have hi : (m.cache.slots i).refCount ≠ 0 := by
      rw [h.refs i, count_cons_self]
      exact Nat.succ_ne_zero _
    have hj := h.refs j
    unfold Bigfs.putBlock put
    rw [if_neg hi]
    by_cases hji : j = i
    · subst hji
      simp [State.setSlot, hj]
    · have hij : ¬i = j := fun heq => hji heq.symm
      simpa [State.setSlot, update_of_ne hji, count_cons, hij] using hj
  guards := h.guards.congr (put_guards m.cache i).1
  pending := h.pending

/-! ## §3. Steps of a flush. -/

/-- Every write from number `now` on succeeds. -/
def WritesOk (io : Nat → WriteIo β) (now : Nat) : Prop := ∀ n, now ≤ n → io n = .ok

/-- With one more block held there is still a slot that is neither held nor of the
plan. -/
def Room (m : Mount β) (pins : List Nat) : Prop :=
  pins.length + m.plan.length + 1 < CACHE_BLOCKS

/-- A step of a flush that leaves the commit plan as it is. -/
structure Stage (io : Nat → WriteIo β) (pins : List Nat) (m : Mount β) (r : Bool × Mount β) :
    Prop where
  tended : Tended r.2 pins
  plan : r.2.plan = m.plan
  held : r.2.held = m.held
  later : m.now ≤ r.2.now
  ok : WritesOk io m.now → Room m pins → r.1

/-- The rest of a flush: where it goes through, no plan is left. -/
structure Finish (io : Nat → WriteIo β) (pins : List Nat) (m : Mount β) (r : Bool × Mount β) :
    Prop where
  tended : Tended r.2 pins
  held : r.2.held = m.held
  later : m.now ≤ r.2.now
  emptied : r.1 → r.2.plan = []
  ok : WritesOk io m.now → Room m pins → r.1

theorem WritesOk.mono {io : Nat → WriteIo β} {now' : Nat} (h : WritesOk io now)
    (hle : now ≤ now') : WritesOk io now' := fun n hn => h n (hle.trans hn)

/-- A step and then the rest. -/
theorem Stage.finish {io : Nat → WriteIo β} {r : Bool × Mount β}
    {f : Mount β → Bool × Mount β} (h : Stage io pins m r)
    (hf : ∀ m', Tended m' pins → m'.plan = m.plan → Finish io pins m' (f m')) :
    Finish io pins m (andThen r f) := by
  unfold andThen
  cases hok : r.1 with
  | true =>
    have hf := hf r.2 h.tended h.plan
    refine ⟨hf.tended, hf.held.trans h.held, h.later.trans hf.later, hf.emptied, ?_⟩
    intro hio hroom
    apply hf.ok (hio.mono h.later)
    unfold Room
    rw [h.plan]
    exact hroom
  | false =>
    refine ⟨h.tended, h.held, h.later, fun ht => ?_, h.ok⟩
    cases hok.symm.trans ht

section

variable (h : Tended m pins)

include h

/-- What `get` leaves, and when it returns a block. -/
theorem Tended.getBlock_cases (hfew : pins.length < 2 ^ 32 - 1) (io : Nat → WriteIo β) (b : Nat) :
    ∃ got m1, Bigfs.getBlock io m b = (got, m1) ∧ Tended m1 (got.toList ++ pins) ∧
      m1.plan = m.plan ∧ m1.held = m.held ∧ m1.now = m.now + 1 ∧
      (WritesOk io m.now → pins.length + m.plan.length < CACHE_BLOCKS → got ≠ none) := by
  refine ⟨_, _, rfl, h.getBlock hfew io b, rfl, rfl, rfl, fun hio hroom hnone => ?_⟩
  -- With room, and with writes that succeed, there is a slot to take.
  obtain ⟨k, hk, hfree⟩ :=
    exists_available h.inv.toKeys h.guards (fun _ hi => h.referenced hi) hroom
  obtain ⟨j, hj⟩ := get_available h.inv.toKeys h.started hk hfree 0 b
  simp only [hio m.now le_rfl] at hnone
  cases hnone.symm.trans hj

theorem Tended.overwrite (hfew : pins.length + 1 < 2 ^ 32 - 1) (io : Nat → WriteIo β) (b : Nat)
    (f : β → β) : Stage io pins m (overwrite io m b f) := by
  obtain ⟨got, m1, hget, ht, hplan, hheld, hnow, hsome⟩ := h.getBlock_cases (by omega) io b
  have hlater : m.now ≤ m1.now := by omega
  unfold Bigfs.overwrite
  rw [hget]
  cases got with
  | none =>
    refine ⟨ht, hplan, hheld, hlater, fun hio hroom => ?_⟩
    exact absurd rfl (hsome hio (by unfold Room at hroom; omega))
  | some j => exact ⟨(ht.edit j _).putBlock, hplan, hheld, hlater, fun _ _ => rfl⟩

theorem Tended.orderedFlushOne (io : Nat → WriteIo β) {blocks : List Nat}
    (hlen : Room m pins → blocks.length ≤ ORDERED_FLUSH_BLOCKS_MAX) :
    Stage io pins m (orderedFlushOne io m blocks) where
  tended := h.flushes (orderedFlush_flushes h.inv.toKeys ..)
    (orderedFlush_rule (keptByWrites_guards _) rfl ..)
  plan := rfl
  held := rfl
  later := Nat.le_add_right ..
  ok hio hroom := by
    have hok := orderedFlush_ok m.cache 0
      (blocks.zipIdx.map (fun bk => (bk.1, io (m.now + bk.2)))) ?_ ?_
    · unfold Bigfs.orderedFlushOne
      simp [hok]
    · intro e he
      obtain ⟨bk, _, rfl⟩ := mem_map.mp he
      exact hio _ (Nat.le_add_right ..)
    · simpa using hlen hroom

theorem Tended.protectPlan (io : Nat → WriteIo β) : Stage io pins m (protectPlan m) := by
  obtain ⟨hguards, hok⟩ := protectBlocks_guardsIn h.guards m.plan (fun _ hb => hb)
  obtain ⟨guards, hg⟩ := protectBlocks_same m.cache (some 0) m.plan
  unfold Bigfs.protectPlan
  simp only
  rw [hg] at hguards ⊢
  refine ⟨⟨h.inv.guards guards, h.started, h.refs, hguards, h.pending⟩, rfl, rfl, le_rfl, ?_⟩
  intro _ hroom
  have hlt : m.plan.length < PROTECTED_BLOCKS_MAX := by
    simp only [Room, CACHE_BLOCKS] at hroom
    simp only [PROTECTED_BLOCKS_MAX]
    omega
  simp [hok hlt]

/-- The copies are made one by one; home and payload are held together. -/
theorem Tended.copyHomeAfterImages (hfew : pins.length + 2 < 2 ^ 32 - 1) (io : Nat → WriteIo β)
    (homes : List (Nat × Nat)) : Stage io pins m (copyHomeAfterImages io m homes) := by
  induction homes generalizing m with
  | nil => exact ⟨h, rfl, rfl, le_rfl, fun _ _ => rfl⟩
  | cons head rest ih =>
    obtain ⟨b, k⟩ := head
    obtain ⟨home, m1, hget, ht, hplan, hheld, hnow, hsome⟩ := h.getBlock_cases (by omega) io b
    unfold Bigfs.copyHomeAfterImages
    rw [hget]
    cases home with
    | none =>
      refine ⟨ht, hplan, hheld, hnow ▸ Nat.le_succ _, fun hio hroom => ?_⟩
      exact absurd rfl (hsome hio (by unfold Room at hroom; omega))
    | some home =>
      have ht : Tended m1 (home :: pins) := ht
      obtain ⟨payload, m2, hget2, ht2, hplan2, hheld2, hnow2, hsome2⟩ :=
        ht.getBlock_cases (by simp only [length_cons]; omega) io (JOURNAL_PAYLOAD_START + k)
      have hplan' : m2.plan = m.plan := hplan2.trans hplan
      have hheld' : m2.held = m.held := hheld2.trans hheld
      simp only [hget2]
      cases payload with
      | none =>
        refine ⟨Tended.putBlock ht2, hplan', hheld', by
          show m.now ≤ m2.now
          omega, fun hio hroom => ?_⟩
        refine absurd rfl (hsome2 (hio.mono (by omega)) ?_)
        simp only [length_cons, hplan]
        unfold Room at hroom
        omega
      | some payload =>
        have hrest := ih (ht2.edit payload (m2.cache.slots home).data).putBlock.putBlock
        have hlater : m.now ≤ m2.now := by omega
        refine ⟨hrest.tended, hrest.plan.trans hplan', hrest.held.trans hheld',
          hlater.trans hrest.later, fun hio hroom => ?_⟩
        apply hrest.ok (hio.mono hlater)
        show pins.length + m2.plan.length + 1 < CACHE_BLOCKS
        rw [hplan']
        exact hroom

/-- A flush that went through unprotects its blocks and drops the plan. -/
theorem Tended.flushDone (io : Nat → WriteIo β) : Finish io pins m (flushDone m) := by
  have hguards := unprotectBlocks_guardsIn h.guards
  obtain ⟨guards, hg⟩ := unprotectBlocks_same m.cache (some 0) m.plan
  unfold Bigfs.flushDone metadataCommitReset
  rw [hg] at hguards ⊢
  exact ⟨⟨h.inv.guards guards, h.started, h.refs, hguards, fun _ => rfl⟩, rfl, le_rfl,
    fun _ => rfl, fun _ _ => rfl⟩

end

/-! ## §4. The flush. -/

variable (c : Codec β) (io : Nat → WriteIo β)

theorem Tended.commitAdd (h : Tended m pins) (b : Nat) : Tended (commitAdd m b).2 pins := by
  unfold Bigfs.commitAdd metadataCommitAdd
  split
  · exact h
  rename_i plan heq
  split at heq
  · cases heq
  split at heq
  · cases heq
    exact ⟨h.inv, h.started, h.refs, h.guards, fun hp => h.pending (by simpa using hp)⟩
  split at heq
  · cases heq
  · cases heq
    refine ⟨h.inv, h.started, h.refs,
      h.guards.mono (fun c hc => mem_append_left _ hc), fun hp => ?_⟩
    simp at hp

/-- The superblock joins a plan that has room for it. -/
theorem commitAdd_superblock (m : Mount β)
    (hlen : (withSuperblock m.plan).length ≤ JOURNAL_MAX_RECORDS) :
    (commitAdd m 0).1 ∧ (commitAdd m 0).2.plan = withSuperblock m.plan := by
  have hcap : METADATA_COMMIT_BLOCKS_MAX = 64 ∧ JOURNAL_MAX_RECORDS = 24 := ⟨rfl, rfl⟩
  unfold withSuperblock at hlen ⊢
  unfold commitAdd metadataCommitAdd
  rw [if_neg (by simp [TOTAL_BLOCKS])]
  by_cases hmem : 0 ∈ m.plan
  · simp [hmem]
  · rw [if_neg hmem] at hlen ⊢
    rw [length_append, length_singleton] at hlen
    rw [if_neg hmem, if_neg (by omega)]
    exact ⟨rfl, rfl⟩

/-- A flush, from any plan: it goes through when the plan fits the journal. -/
structure FlushSpec (io : Nat → WriteIo β) (pins : List Nat) (m : Mount β) (r : Bool × Mount β) :
    Prop where
  tended : Tended r.2 pins
  held : r.2.held = m.held
  later : m.now ≤ r.2.now
  emptied : r.1 → r.2.plan = []
  ok : WritesOk io m.now → pins.length ≤ 4 →
    (withSuperblock m.plan).length ≤ JOURNAL_MAX_RECORDS → r.1

/-- Step after step, every one of them a `Stage` with the plan as it was. -/
theorem Tended.recordPlan (h : Tended m pins) (hfew : pins.length + 2 < 2 ^ 32 - 1)
    (c : Codec β) (io : Nat → WriteIo β) : Finish io pins m (recordPlan c io m) := by
  have hfew' : pins.length + 1 < 2 ^ 32 - 1 := by omega
  -- The plan leaves room in the cache, so it fits one phase.
  have hphase : ∀ m' : Mount β, Room m' pins → m'.plan.length + 1 ≤ ORDERED_FLUSH_BLOCKS_MAX := by
    intro m' hroom
    simp only [Room, CACHE_BLOCKS, ORDERED_FLUSH_BLOCKS_MAX] at hroom ⊢
    omega
  unfold Bigfs.recordPlan
  refine (h.protectPlan io).finish fun m h _ => ?_
  refine (h.overwrite hfew' io _ _).finish fun m h _ => ?_
  refine (h.copyHomeAfterImages hfew io _).finish fun m h _ => ?_
  refine (h.orderedFlushOne io (by simpa using hphase m)).finish fun m h _ => ?_
  refine (h.overwrite hfew' io _ _).finish fun m h _ => ?_
  refine (h.orderedFlushOne io (fun _ => by decide)).finish fun m h _ => ?_
  refine (h.orderedFlushOne io (fun hr => Nat.le_of_succ_le (hphase m hr))).finish
    fun m h _ => ?_
  refine (h.overwrite hfew' io _ _).finish fun m h _ => ?_
  refine (h.overwrite hfew' io _ _).finish fun m h _ => ?_
  refine (h.orderedFlushOne io (fun _ => by decide)).finish fun m h _ => ?_
  exact h.flushDone io

theorem journalCommitFlush_spec (h : Tended m pins) (hfew : pins.length + 2 < 2 ^ 32 - 1) :
    FlushSpec io pins m (journalCommitFlush c io m) := by
  have hcap : CACHE_BLOCKS = 32 ∧ JOURNAL_MAX_RECORDS = 24 ∧ ORDERED_FLUSH_BLOCKS_MAX = 64 :=
    ⟨rfl, rfl, rfl⟩
  have hfew' : pins.length + 1 < 2 ^ 32 - 1 := by omega
  have hsb := h.overwrite hfew' io 0 (c.superblock m.sequence)
  unfold journalCommitFlush
  generalize Bigfs.overwrite io m 0 (c.superblock m.sequence) = r at hsb
  obtain ⟨ok1, m1⟩ := r
  cases ok1 with
  | false =>
    -- The superblock was not got.
    refine ⟨hsb.tended, hsb.held, hsb.later, nofun, ?_⟩
    intro hio hpins hlen
    apply hsb.ok hio
    have hle : m.plan.length ≤ (withSuperblock m.plan).length := by
      unfold withSuperblock
      split <;> simp
    unfold Room
    omega
  | true =>
    have hplan1 : m1.plan = m.plan := hsb.plan
    have hadd := hsb.tended.commitAdd 0
    have hfits := fun hlen => commitAdd_superblock m1 hlen
    have hsame : (commitAdd m1 0).2.held = m1.held ∧ (commitAdd m1 0).2.now = m1.now := by
      unfold commitAdd
      split <;> exact ⟨rfl, rfl⟩
    rw [hplan1] at hfits
    simp only [andThen, if_true]
    generalize commitAdd m1 0 = r2 at hadd hfits hsame
    obtain ⟨ok2, m2⟩ := r2
    have hheld : m2.held = m.held := hsame.1.trans hsb.held
    have hlater : m.now ≤ m2.now := hsame.2.symm ▸ hsb.later
    cases ok2 with
    | false =>
      refine ⟨hadd, hheld, hlater, nofun, ?_⟩
      intro _ _ hlen
      exact absurd (hfits hlen).1 Bool.false_ne_true
    | true =>
      simp only [if_true]
      split
      · rename_i hlong
        refine ⟨hadd, hheld, hlater, nofun, ?_⟩
        intro _ _ hlen
        rw [(hfits hlen).2] at hlong
        omega
      · have hrec := hadd.recordPlan hfew c io
        refine ⟨hrec.tended, hrec.held.trans hheld, hlater.trans hrec.later, hrec.emptied, ?_⟩
        intro hio hpins hlen
        apply hrec.ok (hio.mono hlater)
        unfold Room
        rw [(hfits hlen).2]
        omega

/-! ## §5. `fsync` and the operations. -/

theorem Tended.syncAllBlocks (h : Tended m pins) (io : Nat → WriteIo β) :
    Tended (syncAllBlocks io m).2 pins :=
  h.flushes (syncDevice_flushes h.inv.toKeys ..) (syncDevice_guards ..)

/-- With nothing protected everything is written back. -/
theorem Tended.syncAllBlocks_ok (h : Tended m pins) {io : Nat → WriteIo β}
    (hio : WritesOk io m.now) (hguards : GuardsIn m.cache 0 []) :
    (Bigfs.syncAllBlocks io m).1 = .success ∧
      (∀ i, ((Bigfs.syncAllBlocks io m).2.cache.slots i).used →
        ((Bigfs.syncAllBlocks io m).2.cache.slots i).dev = some 0 →
        ((Bigfs.syncAllBlocks io m).2.cache.slots i).dirty = false) ∧
      ∀ b, isProtected (Bigfs.syncAllBlocks io m).2.cache (some 0) b = false := by
  have hok : ∀ k, io (m.now + k) = .ok := fun k => hio _ (Nat.le_add_right ..)
  have hsync := syncDevice_ok hok h.inv.toKeys hguards
  have hguards' := hguards.congr (syncDevice_guards m.cache (some 0) true (fun k => io (m.now + k)))
  unfold Bigfs.syncAllBlocks
  -- The scan of the slots must not be evaluated.
  generalize syncDevice m.cache (some 0) true (fun k => io (m.now + k)) = r at hsync hguards'
  exact ⟨hsync.1, hsync.2, fun b => hguards'.not_protected (some 0) b⟩

/-- The first half of `fsync`: a plan that is pending is flushed. -/
theorem flushPending_spec (h : Tended m pins) (hfew : pins.length + 2 < 2 ^ 32 - 1) :
    FlushSpec io pins m (if m.pending then journalCommitFlush c io m else (true, m)) := by
  cases hp : m.pending with
  | true =>
    exact journalCommitFlush_spec c io h hfew
  | false =>
    exact ⟨h, rfl, le_rfl, fun _ => h.pending hp, fun _ _ _ => rfl⟩

theorem Tended.fsync (h : Tended m pins) (hfew : pins.length + 2 < 2 ^ 32 - 1) :
    Tended (fsync c io m).2 pins ∧ (fsync c io m).2.held = m.held := by
  have hflush := flushPending_spec c io h hfew
  unfold Bigfs.fsync
  simp only
  generalize (if m.pending then journalCommitFlush c io m else (true, m)) = r at hflush
  have hsync := hflush.tended.syncAllBlocks io
  have hheld : (Bigfs.syncAllBlocks io r.2).2.held = m.held := by
    unfold Bigfs.syncAllBlocks
    exact hflush.held
  split
  · exact ⟨hflush.tended, hflush.held⟩
  · generalize Bigfs.syncAllBlocks io r.2 = d at hsync hheld
    obtain ⟨status, m'⟩ := d
    cases status <;> exact ⟨hsync, hheld⟩

/-- What the operations of bigfs keep to: a commit plan is started while nothing is
protected, and an operation holds no more blocks than the cache has. -/
def Orderly (m : Mount β) : Action β → Prop
  | .reset => ∀ b, isProtected m.cache (some 0) b = false
  | _ => m.held.length ≤ CACHE_BLOCKS

/-- The condition at every action of an operation. -/
def OrderlyActions (c : Codec β) (io : Nat → WriteIo β) : Mount β → List (Action β) → Prop
  | _, [] => True
  | m, a :: rest => Orderly m a ∧ OrderlyActions c io (act c io m a) rest

/-- The condition at every operation of a history. -/
def OrderlyCalls (c : Codec β) (io : Nat → WriteIo β) : Mount β → List (Call β) → Prop
  | _, [] => True
  | m, .operation actions :: rest =>
    OrderlyActions c io m actions ∧ OrderlyCalls c io (call c io m (.operation actions)) rest
  | m, .fsync :: rest => OrderlyCalls c io (call c io m .fsync) rest

/-- Starting a plan forgets nothing when nothing is protected. -/
theorem Tended.reset (h : Tended m pins) (hfree : ∀ b, isProtected m.cache (some 0) b = false) :
    Tended (metadataCommitReset m) pins := by
  refine ⟨h.inv, h.started, h.refs, ⟨fun p hp hused => ?_, h.guards.inj⟩, fun _ => rfl⟩
  have hprot : isProtected m.cache (some 0) (m.cache.guards p).blockNo :=
    isProtected_iff.mpr ⟨p, hp, hused, (h.guards.block p hp hused).1, rfl⟩
  rw [hfree] at hprot
  cases hprot

/-- One action of an operation. -/
theorem act_tended {a : Action β} (h : Tended m m.held) (ha : Orderly m a) :
    Tended (act c io m a) (act c io m a).held := by
  have hcap : CACHE_BLOCKS = 32 := rfl
  cases a with
  | acquire b =>
    have hlen : m.held.length ≤ CACHE_BLOCKS := ha
    obtain ⟨got, m1, hget, ht, _, hheld, _, _⟩ := h.getBlock_cases (by omega) io b
    simp only [act, hget]
    cases got with
    | none =>
      simp only [hheld]
      exact ht
    | some =>
      simp only [hheld]
      exact ⟨ht.inv, ht.started, ht.refs, ht.guards, ht.pending⟩
  | edit i x =>
    simp only [act]
    split
    · exact h.edit i x
    · exact h
  | release =>
    simp only [act]
    split
    · rename_i hi
      have ht := (h.perm (perm_cons_erase hi)).putBlock
      exact ⟨ht.inv, ht.started, ht.refs, ht.guards, ht.pending⟩
    · exact h
  | reset => exact h.reset ha
  | add b =>
    have hheld : (commitAdd m b).2.held = m.held := by
      unfold commitAdd
      split <;> rfl
    simp only [act, hheld]
    exact h.commitAdd b
  | flush =>
    have hlen : m.held.length ≤ CACHE_BLOCKS := ha
    have hflush := journalCommitFlush_spec c io h (by omega)
    simp only [act, hflush.held]
    exact hflush.tended

theorem actions_tended {actions : List (Action β)} (h : Tended m m.held)
    (ha : OrderlyActions c io m actions) :
    Tended (actions.foldl (act c io) m) (actions.foldl (act c io) m).held := by
  induction actions generalizing m with
  | nil => exact h
  | cons a rest ih => exact ih (act_tended c io h ha.1) ha.2

/-- What an operation still holds is put when it returns. -/
theorem Tended.releaseAll (h : Tended m m.held) : Tended (releaseAll m) [] := by
  have hputs : ∀ (pins : List Nat) (m : Mount β), Tended m pins →
      Tended { m with cache := pins.foldl put m.cache } [] := by
    intro pins
    induction pins with
    | nil => exact fun m h => h
    | cons i rest ih => exact fun m h => ih (Bigfs.putBlock m i) h.putBlock
  have ht := hputs m.held m h
  exact ⟨ht.inv, ht.started, ht.refs, ht.guards, ht.pending⟩

/-- A history, from a state between two operations. -/
theorem run_tended {calls : List (Call β)} (h : Tended m []) (hheld : m.held = [])
    (hc : OrderlyCalls c io m calls) :
    Tended (run c io m calls) [] ∧ (run c io m calls).held = [] := by
  induction calls generalizing m with
  | nil => exact ⟨h, hheld⟩
  | cons k rest ih =>
    cases k with
    | operation =>
      have hact := actions_tended c io (hheld.symm ▸ h) hc.1
      exact ih hact.releaseAll rfl hc.2
    | fsync =>
      obtain ⟨ht, hsame⟩ := Tended.fsync c io h (by decide)
      exact ih ht (hsame.trans hheld) hc

/-! ## §6. The device works again. -/

/-- A mount before its first operation. -/
structure Mounted (m : Mount β) : Prop where
  inv : Bcache.Inv m.cache
  started : m.cache.initialized
  idle : ∀ i, (m.cache.slots i).refCount = 0
  open_ : ∀ p, (m.cache.guards p).used = false
  plan : m.plan = []
  held : m.held = []

theorem Mounted.tended (h : Mounted m) : Tended m [] where
  inv := h.inv
  started := h.started
  refs := h.idle
  guards := ⟨fun p _ hused => (nomatch (h.open_ p).symm.trans hused),
    fun p _ _ _ hused => nomatch (h.open_ p).symm.trans hused⟩
  pending _ := h.plan

/-- Between two operations `fsync` goes through when the pending plan fits the
journal, and leaves nothing dirty. -/
theorem Tended.fsync_ok (h : Tended m []) (hio : WritesOk io m.now)
    (hplan : (withSuperblock m.plan).length ≤ JOURNAL_MAX_RECORDS) :
    (Bigfs.fsync c io m).1 = .success ∧ (∀ i, ((Bigfs.fsync c io m).2.cache.slots i).used →
        ((Bigfs.fsync c io m).2.cache.slots i).dev = some 0 →
        ((Bigfs.fsync c io m).2.cache.slots i).dirty = false) ∧
      ∀ b, isProtected (Bigfs.fsync c io m).2.cache (some 0) b = false := by
  have hflush := flushPending_spec c io h (by decide)
  have hok := hflush.ok hio (Nat.zero_le _) hplan
  unfold Bigfs.fsync
  simp only
  generalize (if m.pending then journalCommitFlush c io m else (true, m)) = r at hflush hok
  -- With the plan gone nothing is protected any more.
  have hguards : GuardsIn r.2.cache 0 [] := hflush.emptied hok ▸ hflush.tended.guards
  have hsync := hflush.tended.syncAllBlocks_ok (hio.mono hflush.later) hguards
  rw [hok]
  generalize Bigfs.syncAllBlocks io r.2 = d at hsync
  obtain ⟨status, m'⟩ := d
  obtain ⟨hst, hclean, hopen⟩ := hsync
  obtain rfl : status = .success := hst
  exact ⟨rfl, hclean, hopen⟩

theorem fsync_recovers (c : Codec β) (io : Nat → WriteIo β) (hm : Mounted m)
    (calls : List (Call β)) (hcalls : OrderlyCalls c io m calls)
    (hio : WritesOk io (run c io m calls).now)
    (hplan : (withSuperblock (run c io m calls).plan).length ≤ JOURNAL_MAX_RECORDS) :
    (fsync c io (run c io m calls)).1 = .success ∧
      (∀ i, ((fsync c io (run c io m calls)).2.cache.slots i).used = true →
        ((fsync c io (run c io m calls)).2.cache.slots i).dev = some 0 →
        ((fsync c io (run c io m calls)).2.cache.slots i).dirty = false) ∧
      ∀ b, isProtected (fsync c io (run c io m calls)).2.cache (some 0) b = false :=
  (run_tended c io hm.tended hm.held hcalls).1.fsync_ok c io hio hplan

/-- Blocks are numbers, and every block of the device holds its own. -/
def plainCodec : Codec Nat := ⟨fun _ x => x, fun _ => 1, fun _ => 2⟩

def freshMount : Mount Nat where
  cache := Bcache.init (State.boot (fun _ b => b) (fun _ => 0))
  plan := []
  pending := false
  sequence := 1
  held := []
  now := 0

theorem freshMount_mounted : Mounted freshMount where
  inv := (init_flushes (boot_inv _ _).toKeys rfl).inv (boot_inv _ _)
  started := rfl
  idle _ := rfl
  open_ _ := rfl
  plan := rfl
  held := rfl

/-- Write number 7 fails: the journal descriptor of the first flush. -/
def oneFailure (n : Nat) : WriteIo Nat := if n = 7 then .failed 9 else .ok

/-- An operation that changes one block, in the slot it gets, and commits it. -/
def update (slot b x : Nat) : Call Nat :=
  .operation [.acquire b, .edit slot x, .release slot, .reset, .add b, .flush]

/-- The commit of an operation fails, and `fsync` makes up for it. -/
theorem fsync_recovers_failed_commit :
    ((run plainCodec oneFailure freshMount [update 0 43 500]).cache.slots 0).dirty = true ∧
      (fsync plainCodec oneFailure
        (run plainCodec oneFailure freshMount [update 0 43 500])).1 = .success := by
  refine ⟨by decide +kernel, ?_⟩
  have hnow : 7 < (run plainCodec oneFailure freshMount [update 0 43 500]).now := by
    decide +kernel
  have hplan : (withSuperblock (run plainCodec oneFailure freshMount [update 0 43 500]).plan).length
      ≤ JOURNAL_MAX_RECORDS := by
    decide +kernel
  have hcalls : OrderlyCalls plainCodec oneFailure freshMount [update 0 43 500] := by
    -- Until the flush the table of protected blocks is as at the mount.
    refine ⟨⟨?_, ?_, ?_, ?_, ?_, ?_, trivial⟩, trivial⟩
    · show List.length _ ≤ CACHE_BLOCKS
      decide +kernel
    · show List.length _ ≤ CACHE_BLOCKS
      decide +kernel
    · show List.length _ ≤ CACHE_BLOCKS
      decide +kernel
    · intro b
      rfl
    · show List.length _ ≤ CACHE_BLOCKS
      decide +kernel
    · show List.length _ ≤ CACHE_BLOCKS
      decide +kernel
  exact (fsync_recovers plainCodec oneFailure freshMount_mounted _ hcalls
    (fun n hn => if_neg (by omega)) hplan).1

/-- The commit of an operation fails, another operation commits a block of its own,
and every write after the failed one succeeds: `fsync` reports an error, and so does
the next one, with the first operation's block dirty and protected. -/
theorem forgotten_plan_wedges_fsync :
    let m := run plainCodec oneFailure freshMount [update 0 43 500, update 5 44 600]
    7 < m.now ∧ m.pending = false ∧
      m.cache.disk 0 44 = 600 ∧ (fsync plainCodec oneFailure m).1 = .ioError ∧
      (fsync plainCodec oneFailure (fsync plainCodec oneFailure m).2).1 = .ioError ∧
      findSlot (fsync plainCodec oneFailure m).2.cache (some 0) 43 = some 0 ∧
      ((fsync plainCodec oneFailure m).2.cache.slots 0).dirty = true ∧
      isProtected (fsync plainCodec oneFailure m).2.cache (some 0) 43 = true := by
  decide +kernel

end BigOS.Fs.Bigfs
