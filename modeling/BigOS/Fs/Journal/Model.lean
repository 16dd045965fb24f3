/-
  BigOS.Fs.Journal.Model — the journal of bigfs, write by write.

  `journal_commit_flush` writes a transaction's blocks to the journal, then a
  commit marker, then the blocks to their homes, and then marks the journal clean
  again.  `recover_journal_before_publish` looks at the descriptor, the commit
  marker and the checkpoint marker, and replays or discards what it finds.  Both
  are given here as the list of 512-byte writes they issue, so that a crash is a
  prefix of the list.

  A block that holds a descriptor or a marker is the structure read from it, and
  the contents of all other blocks are of any type.  What
  `update_superblock_journal_clean` does to the superblock is a parameter.

  Main definitions:
    • `JournalDescriptor`, `JournalMarker`, `Device` — what is on the device,
    • `Write`, `write` — one write,
    • `Transaction`, `commitWrites` — a commit,
    • `scanJournal`, `recoverJournalBeforePublish` — recovery.
-/
import BigOS.Fs.Bigfs.Layout
import BigOS.Lib.Crash

namespace BigOS.Fs.Journal

open BigOS.Fs.Bigfs BigOS.Lib.Crash

/-! ## §1. Descriptors and markers. -/

def JOURNAL_MAGIC : UInt32 := 0x4a57414a

def JOURNAL_CHECKSUM_SEED : UInt32 := 0x51f15eed

def JOURNAL_STATE_CLEAN : UInt32 := 0

def JOURNAL_STATE_RECORDS : UInt32 := 1

def JOURNAL_STATE_COMMITTED : UInt32 := 2

structure JournalDescriptor where
  magic : UInt32
  state : UInt32
  sequence : UInt64
  recordCount : Nat
  payloadStart : Nat
  homeBlocks : Nat → Nat
  checksum : UInt32

structure JournalMarker where
  magic : UInt32
  state : UInt32
  sequence : UInt64
  recordCount : Nat
  checksum : UInt32
  deriving Repr, DecidableEq

/-- `checksum_words`. -/
def checksumWords (words : List UInt32) (seed : UInt32) : UInt32 :=
  words.foldl (fun value word => (value <<< 5) ^^^ (value >>> 2) ^^^ word) seed

/-- The two words of a sequence number. -/
def sequenceWords (sequence : UInt64) : List UInt32 :=
  [sequence.toUInt32, (sequence >>> 32).toUInt32]

/-- `journal_descriptor_checksum`: the words of the structure with its checksum
zero, the padding at its end included. -/
def JournalDescriptor.computeChecksum (d : JournalDescriptor) : UInt32 :=
  checksumWords
    ([d.magic, d.state] ++ sequenceWords d.sequence ++
      [UInt32.ofNat d.recordCount, UInt32.ofNat d.payloadStart] ++
      (List.range JOURNAL_MAX_RECORDS).map (fun i => UInt32.ofNat (d.homeBlocks i)) ++ [0, 0])
    JOURNAL_CHECKSUM_SEED

/-- `journal_marker_checksum`. -/
def JournalMarker.computeChecksum (m : JournalMarker) : UInt32 :=
  checksumWords
    ([m.magic, m.state] ++ sequenceWords m.sequence ++ [UInt32.ofNat m.recordCount, 0])
    JOURNAL_CHECKSUM_SEED

/-- The descriptor that `write_journal_descriptor` writes. -/
def descriptor (state : UInt32) (sequence : UInt64) (blocks : List Nat) : JournalDescriptor :=
  let d : JournalDescriptor :=
    { magic := JOURNAL_MAGIC
      state := state
      sequence := sequence
      recordCount := blocks.length
      payloadStart := JOURNAL_PAYLOAD_START
      homeBlocks := fun i => blocks.getD i 0
      checksum := 0 }
  { d with checksum := d.computeChecksum }

/-- The marker that `write_journal_marker` writes. -/
def marker (state : UInt32) (sequence : UInt64) (recordCount : Nat) : JournalMarker :=
  let m : JournalMarker :=
    { magic := JOURNAL_MAGIC
      state := state
      sequence := sequence
      recordCount := recordCount
      checksum := 0 }
  { m with checksum := m.computeChecksum }

/-- A zero block read as a marker. -/
def zeroMarker : JournalMarker := ⟨0, 0, 0, 0, 0⟩

/-- `block_is_recoverable_home`. -/
def blockIsRecoverableHome (b : Nat) : Bool :=
  b < TOTAL_BLOCKS && !(JOURNAL_START ≤ b && b < DATA_START)

/-- `journal_descriptor_basic_valid`. -/
def JournalDescriptor.basicValid (d : JournalDescriptor) : Bool :=
  d.magic == JOURNAL_MAGIC && d.payloadStart == JOURNAL_PAYLOAD_START &&
    (d.state == JOURNAL_STATE_CLEAN || d.state == JOURNAL_STATE_RECORDS ||
      d.state == JOURNAL_STATE_COMMITTED) &&
    d.recordCount ≤ JOURNAL_MAX_RECORDS && d.recordCount ≤ JOURNAL_PAYLOAD_BLOCKS &&
    !(d.state == JOURNAL_STATE_CLEAN && d.recordCount != 0) &&
    !(d.state != JOURNAL_STATE_CLEAN && d.recordCount == 0) &&
    (List.range d.recordCount).all (fun i =>
      blockIsRecoverableHome (d.homeBlocks i) &&
        (List.range d.recordCount).all (fun j => !(i < j && d.homeBlocks i == d.homeBlocks j))) &&
    d.checksum == d.computeChecksum

/-- `journal_marker_valid`. -/
def JournalMarker.valid (m : JournalMarker) (state : UInt32) : Bool :=
  m.magic == JOURNAL_MAGIC && m.state == state && m.recordCount ≤ JOURNAL_MAX_RECORDS &&
    m.checksum == m.computeChecksum

/-- `journal_marker_matches`. -/
def JournalMarker.matches (m : JournalMarker) (state : UInt32) (sequence : UInt64)
    (recordCount : Nat) : Bool :=
  m.valid state && m.sequence == sequence && m.recordCount == recordCount

/-! ## §2. The device. -/

/-- The blocks of the device: `homes` are those outside the journal, `payload` the
copies in it. -/
structure Device (β : Type) where
  homes : Nat → β
  desc : JournalDescriptor
  commit : JournalMarker
  checkpoint : JournalMarker
  payload : Nat → β

/-- One write to the device. -/
inductive Write (β : Type) where
  | home (b : Nat) (x : β)
  | desc (d : JournalDescriptor)
  | commit (m : JournalMarker)
  | checkpoint (m : JournalMarker)
  | payload (i : Nat) (x : β)

variable {β : Type}

def write (dev : Device β) : Write β → Device β
  | .home b x => { dev with homes := Function.update dev.homes b x }
  | .desc d => { dev with desc := d }
  | .commit m => { dev with commit := m }
  | .checkpoint m => { dev with checkpoint := m }
  | .payload i x => { dev with payload := Function.update dev.payload i x }

/-! ## §3. Committing. -/

/-- `metadata_commit_add`. -/
def metadataCommitAdd (plan : List Nat) (b : Nat) : Option (List Nat) :=
  if TOTAL_BLOCKS ≤ b then none
  else if b ∈ plan then some plan
  else if METADATA_COMMIT_BLOCKS_MAX ≤ plan.length then none
  else some (plan ++ [b])

/-- A commit plan with the superblock. -/
def withSuperblock (plan : List Nat) : List Nat := if 0 ∈ plan then plan else plan ++ [0]

/-- A commit plan and the blocks as they are in the cache, with which of them are
dirty there. -/
structure Transaction (β : Type) where
  plan : List Nat
  cached : Nat → β
  dirty : Nat → Bool
  nodup : plan.Nodup
  recoverable : ∀ b ∈ plan, blockIsRecoverableHome b
  bounded : (withSuperblock plan).length ≤ JOURNAL_MAX_RECORDS

namespace Transaction

/-- The home blocks of the transaction. -/
def blocks (t : Transaction β) : List Nat := withSuperblock t.plan

def count (t : Transaction β) : Nat := t.blocks.length

/-- A block as the cache has it; a clean block is as on the device. -/
def current (t : Transaction β) (homes : Nat → β) (b : Nat) : β :=
  if t.dirty b then t.cached b else homes b

/-- The after-image of a block.  The superblock is updated, and so dirty. -/
def image (sb : UInt64 → β → β) (sequence : UInt64) (homes : Nat → β) (t : Transaction β)
    (b : Nat) : β :=
  if b = 0 then sb sequence (t.current homes 0) else t.current homes b

/-- The homes after the transaction. -/
def install (sb : UInt64 → β → β) (sequence : UInt64) (homes : Nat → β) (t : Transaction β) :
    Nat → β :=
  fun b => if b ∈ t.blocks then t.image sb sequence homes b else homes b

/-- The home blocks that are flushed. -/
def dirtyBlocks (t : Transaction β) : List Nat := t.blocks.filter (fun b => b == 0 || t.dirty b)

end Transaction

/-- The descriptor and the payload. -/
def recordWrites (sequence : UInt64) (blocks : List Nat) (image : Nat → β) : List (Write β) :=
  .desc (descriptor JOURNAL_STATE_RECORDS sequence blocks) ::
    (List.range blocks.length).map (fun i => .payload i (image (blocks.getD i 0)))

/-- The journal is marked clean. -/
def checkpointWrites (sequence : UInt64) : List (Write β) :=
  [.desc (descriptor JOURNAL_STATE_CLEAN sequence []),
    .checkpoint (marker JOURNAL_STATE_CLEAN sequence 0)]

/-- The writes of `journal_commit_flush`. -/
def commitWrites (sb : UInt64 → β → β) (sequence : UInt64) (homes : Nat → β)
    (t : Transaction β) : List (Write β) :=
  recordWrites sequence t.blocks (t.image sb sequence homes) ++
    (.commit (marker JOURNAL_STATE_COMMITTED sequence t.count) ::
      (t.dirtyBlocks.map (fun b => .home b (t.image sb sequence homes b)) ++
        checkpointWrites sequence))

/-! ## §4. Recovery. -/

inductive JournalRecoveryState where
  | clean
  | partialJournal
  | committed
  | checkpointed
  | corrupt
  | unsupported
  deriving Repr, DecidableEq

/-- `scan_journal`, when the reads succeed. -/
def scanJournal (dev : Device β) : JournalRecoveryState :=
  if !dev.desc.basicValid then .corrupt
  else if dev.desc.state == JOURNAL_STATE_CLEAN then
    if dev.checkpoint.matches JOURNAL_STATE_CLEAN dev.desc.sequence 0 then .clean
    else if dev.checkpoint.valid JOURNAL_STATE_CLEAN && dev.checkpoint.recordCount == 0 then
      .checkpointed
    else .corrupt
  else
    let committed :=
      dev.commit.matches JOURNAL_STATE_COMMITTED dev.desc.sequence dev.desc.recordCount
    let checkpointed := dev.checkpoint.matches JOURNAL_STATE_CLEAN dev.desc.sequence 0
    if committed && checkpointed then .checkpointed
    else if committed then .committed
    else if dev.commit.valid JOURNAL_STATE_COMMITTED &&
        (dev.commit.sequence == dev.desc.sequence ||
          dev.commit.recordCount == dev.desc.recordCount) then .corrupt
    else .partialJournal

/-- The writes of `checkpoint_journal_clean`. -/
def checkpointJournalClean (sequence : UInt64) : List (Write β) :=
  [.desc (descriptor JOURNAL_STATE_CLEAN sequence []), .commit zeroMarker,
    .checkpoint (marker JOURNAL_STATE_CLEAN sequence 0)]

/-- The writes of `replay_committed_journal`. -/
def replayCommittedJournal (dev : Device β) : List (Write β) :=
  (List.range dev.desc.recordCount).map
      (fun i => .home (dev.desc.homeBlocks i) (dev.payload i)) ++
    checkpointJournalClean dev.desc.sequence

/-- `recover_journal_before_publish`, when the transfers succeed: the writes it
issues and the next sequence number, or its error. -/
def recoverJournalBeforePublish (dev : Device β) : Except Status (List (Write β) × UInt64) :=
  match scanJournal dev with
  | .clean => .ok ([], if dev.desc.sequence = 0 then 1 else dev.desc.sequence + 1)
  | .checkpointed => .ok ([], if dev.desc.sequence = 0 then 1 else dev.desc.sequence + 1)
  | .committed => .ok (replayCommittedJournal dev, dev.desc.sequence + 1)
  | .partialJournal => .ok (checkpointJournalClean dev.desc.sequence, dev.desc.sequence + 1)
  | .unsupported => .error .unsupported
  | .corrupt => .error .invalid

/-- The writes of a recovery that succeeds. -/
def recoveryWrites (dev : Device β) : Option (List (Write β)) :=
  (recoverJournalBeforePublish dev).toOption.map Prod.fst

end BigOS.Fs.Journal
