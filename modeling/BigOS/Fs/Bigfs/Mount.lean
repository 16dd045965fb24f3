/-
  BigOS.Fs.Bigfs.Mount — a persistent mount over the buffer cache.

  What an operation of bigfs does to the cache and to its commit plan: it gets,
  edits and puts blocks, starts a commit plan and adds blocks to it, and flushes
  the plan through the journal.  `fsync` flushes a plan that is pending and then
  writes back what is dirty.

  The writes of the device end as the oracle `io` says, the `n`-th of a history
  as `io n`; every call that may write takes its numbers from the clock `now`.
  Reads succeed.  An operation is any list of actions, and has put what it got
  when it returns.

  Main definitions:
    • `Mount` — the cache, the commit plan and the sequence number,
    • `journalCommitFlush`, `fsync` — the calls,
    • `Action`, `Call`, `run` — histories.
-/
import BigOS.Fs.Bcache.Model
import BigOS.Fs.Journal.Model

namespace BigOS.Fs.Bigfs

open BigOS.Fs.Bcache BigOS.Fs.Journal

/-- How superblocks, descriptors and markers are laid out in a block. -/
structure Codec (β : Type) where
  superblock : UInt64 → β → β
  descriptor : JournalDescriptor → β
  marker : JournalMarker → β

/-- `g_metadata_commit`, `g_journal_sequence` and the cache, with the slots that the
running operation holds and the number of the next write. -/
structure Mount (β : Type) where
  cache : Bcache.State β
  plan : List Nat
  pending : Bool
  sequence : UInt64
  held : List Nat
  now : Nat

variable {β : Type}

variable (c : Codec β) (io : Nat → WriteIo β) (m : Mount β)

/-! ## §1. Blocks. -/

/-- `get` of a block of the device. -/
def getBlock (b : Nat) : Option Nat × Mount β :=
  let r := Bcache.get m.cache (some 0) b true true (io m.now) .ok
  (r.1, { m with cache := r.2, now := m.now + 1 })

/-- A block that is held is changed and marked dirty. -/
def edit (i : Nat) (x : β) : Mount β :=
  { m with cache := Bcache.markDirty (Bcache.store m.cache i x) i }

def putBlock (i : Nat) : Mount β := { m with cache := Bcache.put m.cache i }

/-- A block is got, changed and put. -/
def overwrite (b : Nat) (f : β → β) : Bool × Mount β :=
  match getBlock io m b with
  | (none, m) => (false, m)
  | (some i, m) => (true, putBlock (edit m i (f (m.cache.slots i).data)) i)

/-- The next step of a function that returns at its first failure. -/
def andThen (r : Bool × Mount β) (f : Mount β → Bool × Mount β) : Bool × Mount β :=
  if r.1 then f r.2 else r

/-! ## §2. The commit plan. -/

/-- `metadata_commit_reset`. -/
def metadataCommitReset : Mount β := { m with plan := [], pending := false }

/-- `metadata_commit_add`, on the plan of the mount. -/
def commitAdd (b : Nat) : Bool × Mount β :=
  match metadataCommitAdd m.plan b with
  | none => (false, m)
  | some plan => (true, { m with plan := plan, pending := m.pending || plan != m.plan })

/-- `ordered_flush_one`. -/
def orderedFlushOne (blocks : List Nat) : Bool × Mount β :=
  let phase := blocks.zipIdx.map (fun bk => (bk.1, io (m.now + bk.2)))
  let r := Bcache.orderedFlush m.cache (some 0) [phase] true
  (r.1 == .success, { m with cache := r.2, now := m.now + blocks.length })

/-- `copy_home_after_images_to_journal`, from the given homes and places on. -/
def copyHomeAfterImages (io : Nat → WriteIo β) : Mount β → List (Nat × Nat) → Bool × Mount β
  | m, [] => (true, m)
  | m, (b, k) :: rest =>
    match getBlock io m b with
    | (none, m) => (false, m)
    | (some home, m) =>
      match getBlock io m (JOURNAL_PAYLOAD_START + k) with
      | (none, m) => (false, putBlock m home)
      | (some payload, m) =>
        let m := edit m payload (m.cache.slots home).data
        copyHomeAfterImages io (putBlock (putBlock m payload) home) rest

/-- `protect_blocks` of the plan. -/
def protectPlan : Bool × Mount β :=
  let r := Bcache.protectBlocks m.cache (some 0) m.plan
  (r.1 == .success, { m with cache := r.2 })

/-- The end of a flush that went through. -/
def flushDone : Bool × Mount β :=
  (true, metadataCommitReset
    { m with
      cache := Bcache.unprotectBlocks m.cache (some 0) m.plan
      sequence := m.sequence + 1 })

/-- `journal_commit_flush` from the protection of the plan on. -/
def recordPlan : Bool × Mount β :=
  andThen (protectPlan m) fun m =>
  andThen (overwrite io m JOURNAL_DESCRIPTOR_BLOCK
    (fun _ => c.descriptor (descriptor JOURNAL_STATE_RECORDS m.sequence m.plan))) fun m =>
  andThen (copyHomeAfterImages io m m.plan.zipIdx) fun m =>
  andThen (orderedFlushOne io m (JOURNAL_DESCRIPTOR_BLOCK ::
    (List.range m.plan.length).map (JOURNAL_PAYLOAD_START + ·))) fun m =>
  andThen (overwrite io m JOURNAL_COMMIT_BLOCK
    (fun _ => c.marker (marker JOURNAL_STATE_COMMITTED m.sequence m.plan.length))) fun m =>
  andThen (orderedFlushOne io m [JOURNAL_COMMIT_BLOCK]) fun m =>
  andThen (orderedFlushOne io m m.plan) fun m =>
  andThen (overwrite io m JOURNAL_DESCRIPTOR_BLOCK
    (fun _ => c.descriptor (descriptor JOURNAL_STATE_CLEAN m.sequence []))) fun m =>
  andThen (overwrite io m JOURNAL_CHECKPOINT_BLOCK
    (fun _ => c.marker (marker JOURNAL_STATE_CLEAN m.sequence 0))) fun m =>
  andThen (orderedFlushOne io m [JOURNAL_DESCRIPTOR_BLOCK, JOURNAL_CHECKPOINT_BLOCK]) flushDone

/-- `journal_commit_flush` of a persistent mount. -/
def journalCommitFlush : Bool × Mount β :=
  andThen (overwrite io m 0 (c.superblock m.sequence)) fun m =>
  andThen (commitAdd m 0) fun m =>
  if JOURNAL_MAX_RECORDS < m.plan.length then (false, m) else recordPlan c io m

/-! ## §3. `fsync`. -/

/-- `sync_device` for `fsync`. -/
def syncAllBlocks : Bcache.Status × Mount β :=
  let r := Bcache.syncDevice m.cache (some 0) true (fun i => io (m.now + i))
  (r.1, { m with cache := r.2, now := m.now + CACHE_BLOCKS })

def fsync : Status × Mount β :=
  let r := if m.pending then journalCommitFlush c io m else (true, m)
  if !r.1 then (.ioError, r.2)
  else
    match syncAllBlocks io r.2 with
    | (.wouldBlock, m) => (.wouldBlock, m)
    | (.success, m) => (.success, m)
    | (_, m) => (.ioError, m)

/-! ## §4. Histories. -/

/-- What an operation does to the cache and the commit plan. -/
inductive Action (β : Type) where
  | acquire (b : Nat)
  | edit (i : Nat) (x : β)
  | release (i : Nat)
  | reset
  | add (b : Nat)
  | flush

def act : Action β → Mount β
  | .acquire b =>
    match getBlock io m b with
    | (none, m) => m
    | (some i, m) => { m with held := i :: m.held }
  | .edit i x => if i ∈ m.held then edit m i x else m
  | .release i => if i ∈ m.held then { putBlock m i with held := m.held.erase i } else m
  | .reset => metadataCommitReset m
  | .add b => (commitAdd m b).2
  | .flush => (journalCommitFlush c io m).2

/-- What is still held is put. -/
def releaseAll : Mount β :=
  { m with cache := m.held.foldl Bcache.put m.cache, held := [] }

/-- An operation of bigfs, or `fsync`. -/
inductive Call (β : Type) where
  | operation (actions : List (Action β))
  | fsync

def call : Call β → Mount β
  | .operation actions => releaseAll (actions.foldl (act c io) m)
  | .fsync => (fsync c io m).2

def run (calls : List (Call β)) : Mount β :=
  calls.foldl (call c io) m

end BigOS.Fs.Bigfs
