/-
  BigOS.Fs.Bcache.Model — the buffer cache.

  A bounded cache of device blocks: `get` pins a block and loads it on a miss,
  evicting a slot for it; `put` unpins; a dirty block reaches its device by
  `write_back`, from eviction or from one of the sync calls.  A protected block
  that is dirty is written only on request.

  Devices are numbers, `none` being the null pointer, and a block's bytes are of
  any type.  Every transfer may fail; a failed write leaves any bytes on the
  device, and a failed read may leave any bytes in its destination buffer.  The
  `valid` flag, which nothing reads, is left out.

  Main definitions:
    • `BufferBlock`, `State` — the slots and the protected blocks,
    • `writeBack`, `pickVictim`, `get`, `syncBlock`, `orderedFlush`, `syncDevice`,
      `invalidateDevice` — the calls,
    • `step`, `run` — runs.
-/
import Mathlib.Algebra.Group.Nat.Defs
import Mathlib.Data.List.Range

namespace BigOS.Fs.Bcache

open Function List

/-! ## §1. The slots. -/

def CACHE_BLOCKS : Nat := 32

def PROTECTED_BLOCKS_MAX : Nat := 64

def ORDERED_FLUSH_BLOCKS_MAX : Nat := 64

def ORDERED_FLUSH_PHASES_MAX : Nat := 4

inductive Status where
  | success
  | invalidArgument
  | ioError
  | noSpace
  | wouldBlock
  deriving Repr, DecidableEq

structure BufferBlock (β : Type) where
  dev : Option Nat
  blockNo : Nat
  data : β
  dirty : Bool
  used : Bool
  refCount : Nat
  lastUse : Nat
  deriving Repr, DecidableEq

structure ProtectedBlock where
  dev : Option Nat
  blockNo : Nat
  used : Bool
  deriving Repr, DecidableEq

/-- The cache and the contents of the devices.  `pins` counts the gets of a slot
that have not been put, and `view` is the contents of a block as its users know
them: what they stored last, or the device's contents when it was loaded. -/
structure State (β : Type) where
  slots : Nat → BufferBlock β
  guards : Nat → ProtectedBlock
  initialized : Bool
  clock : Nat
  disk : Nat → Nat → β
  pins : Nat → Nat
  view : Nat → Nat → β

/-- How a write to a device ends: a failed one leaves any bytes there. -/
inductive WriteIo (β : Type) where
  | ok
  | failed (left : β)
  deriving Repr, DecidableEq

/-- How a read from a device ends: a failed one may leave bytes in the buffer. -/
inductive ReadIo (β : Type) where
  | ok
  | failed (left : Option β)
  deriving Repr, DecidableEq

variable {β : Type}

/-- The contents of one block, in a table by device and block. -/
def put2 (f : Nat → Nat → β) (d b : Nat) (x : β) : Nat → Nat → β :=
  update f d (update (f d) b x)

variable (s : State β) (dev : Option Nat)

namespace State

def setSlot (i : Nat) (slot : BufferBlock β) : State β :=
  { s with slots := update s.slots i slot }

def setDisk (d b : Nat) (x : β) : State β :=
  { s with disk := put2 s.disk d b x }

/-- The slot holds the block. -/
def Holds (i d b : Nat) : Prop :=
  (s.slots i).used ∧ (s.slots i).dev = some d ∧ (s.slots i).blockNo = b

instance (s : State β) (i d b : Nat) : Decidable (s.Holds i d b) := by
  unfold Holds
  infer_instance

end State

/-- `next_stamp`. -/
def nextStamp : Nat := (s.clock + 1) % 2 ^ 64

/-- `find_slot`. -/
def findSlot (b : Nat) : Option Nat :=
  (range CACHE_BLOCKS).find? (fun i =>
    (s.slots i).used && (s.slots i).dev == dev && (s.slots i).blockNo == b)

/-- `is_protected`. -/
def isProtected (b : Nat) : Bool :=
  (range PROTECTED_BLOCKS_MAX).any (fun p =>
    (s.guards p).used && (s.guards p).dev == dev && (s.guards p).blockNo == b)

/-- `write_back`. -/
def writeBack (i : Nat) (canBlock : Bool) (io : WriteIo β) : Status × State β :=
  let slot := s.slots i
  if !canBlock then (.wouldBlock, s)
  else
    match slot.dev, io with
    | none, _ => (.ioError, s)
    | some d, .failed left => (.ioError, s.setDisk d slot.blockNo left)
    | some d, .ok =>
      (.success, (s.setDisk d slot.blockNo slot.data).setSlot i { slot with dirty := false })

/-! ## §2. Getting a block. -/

/-- The slots as `init` leaves them; their buffers hold what the pages held. -/
def init : State β :=
  { s with
    slots := fun i => ⟨none, 0, (s.slots i).data, false, false, 0, 0⟩
    guards := fun _ => ⟨none, 0, false⟩
    initialized := true }

/-- The first slot that was never used. -/
def freeSlot : Option Nat :=
  (range CACHE_BLOCKS).find? (fun i => !(s.slots i).used)

/-- One slot of a scan for the least recently used slot with the property. -/
def older (p : Nat → Bool) (best : Option Nat) (i : Nat) : Option Nat :=
  if !p i then best
  else
    match best with
    | none => some i
    | some j => if (s.slots i).lastUse < (s.slots j).lastUse then some i else best

/-- The first of the slots with the property that were used least recently. -/
def lru (p : Nat → Bool) : Option Nat :=
  (range CACHE_BLOCKS).foldl (older s p) none

/-- An unreferenced clean block. -/
def cleanVictim (i : Nat) : Bool :=
  (s.slots i).refCount == 0 && !(s.slots i).dirty

/-- An unreferenced block that eviction may write. -/
def dirtyVictim (i : Nat) : Bool :=
  (s.slots i).refCount == 0 &&
    !((s.slots i).dirty && isProtected s (s.slots i).dev (s.slots i).blockNo)

/-- The slot that `get` loads into. -/
def pickVictim (canBlock : Bool) (io : WriteIo β) : Option Nat × State β :=
  match freeSlot s with
  | some i => (some i, s)
  | none =>
    match lru s (cleanVictim s) with
    | some i => (some i, s)
    | none =>
      match lru s (dirtyVictim s) with
      | none => (none, s)
      | some i =>
        match writeBack s i canBlock io with
        | (.success, s) => (some i, s)
        | (_, s) => (none, s)

/-- The slot after a successful read. -/
def load (i d b : Nat) : State β :=
  { s.setSlot i ⟨some d, b, s.disk d b, false, true, 1, nextStamp s⟩ with
    clock := nextStamp s
    pins := update s.pins i 1
    view := put2 s.view d b (s.disk d b) }

/-- A hit pins the slot. -/
def hit (i : Nat) : State β :=
  { s.setSlot i { s.slots i with
      refCount := ((s.slots i).refCount + 1) % 2 ^ 32, lastUse := nextStamp s } with
    clock := nextStamp s
    pins := update s.pins i (s.pins i + 1) }

/-- The buffer of the slot after a failed read. -/
def scribble (i : Nat) : Option β → State β
  | none => s
  | some x => s.setSlot i { s.slots i with data := x }

/-- `get`, with the slot it returns.  `allocOk` says whether `init` finds the
pages it asks for. -/
def get (b : Nat) (canBlock allocOk : Bool) (wio : WriteIo β)
    (rio : ReadIo β) : Option Nat × State β :=
  match dev with
  | none => (none, s)
  | some d =>
    if !canBlock then (none, s)
    else if !s.initialized && !allocOk then (none, s)
    else
      let s := if s.initialized then s else init s
      match findSlot s dev b with
      | some i => (some i, hit s i)
      | none =>
        match pickVictim s canBlock wio with
        | (none, s) => (none, s)
        | (some i, s) =>
          match rio with
          | .failed left => (none, scribble s i left)
          | .ok => (some i, load s i d b)

/-! ## §3. The other calls. -/

/-- `put`. -/
def put (i : Nat) : State β :=
  if (s.slots i).refCount = 0 then s
  else
    { s.setSlot i { s.slots i with refCount := (s.slots i).refCount - 1 } with
      pins := update s.pins i (s.pins i - 1) }

/-- `mark_dirty`. -/
def markDirty (i : Nat) : State β :=
  if !(s.slots i).used then s else s.setSlot i { s.slots i with dirty := true }

/-- A user of the block writes into the buffer of a slot it has pinned. -/
def store (i : Nat) (x : β) : State β :=
  if s.pins i = 0 then s
  else
    let slot := s.slots i
    match slot.dev with
    | none => s
    | some d =>
      { s.setSlot i { slot with data := x } with view := put2 s.view d slot.blockNo x }

/-- `sync`. -/
def sync (i : Nat) (canBlock : Bool) (io : WriteIo β) : Status × State β :=
  if !(s.slots i).used then (.invalidArgument, s)
  else if !(s.slots i).dirty then (.success, s)
  else writeBack s i canBlock io

/-- `sync_block`. -/
def syncBlock (b : Nat) (canBlock : Bool) (io : WriteIo β) : Status × State β :=
  if dev = none then (.invalidArgument, s)
  else
    match findSlot s dev b with
    | none => (.success, s)
    | some i => if !(s.slots i).dirty then (.success, s) else writeBack s i canBlock io

/-- The blocks of a phase are written in order, up to the first failure. -/
def flushBlocks (dev : Option Nat) (canBlock : Bool) :
    State β → List (Nat × WriteIo β) → Status × State β
  | s, [] => (.success, s)
  | s, (b, io) :: rest =>
    match syncBlock s dev b canBlock io with
    | (.success, s) => flushBlocks dev canBlock s rest
    | (status, s) => (status, s)

/-- The phases are written in order, up to the first failure. -/
def flushPhases (dev : Option Nat) (canBlock : Bool) :
    State β → List (List (Nat × WriteIo β)) → Status × State β
  | s, [] => (.success, s)
  | s, phase :: rest =>
    if ORDERED_FLUSH_BLOCKS_MAX < phase.length then (.invalidArgument, s)
    else
      match flushBlocks dev canBlock s phase with
      | (.success, s) => flushPhases dev canBlock s rest
      | (status, s) => (status, s)

/-- `ordered_flush`; each block of the plan comes with how its write ends. -/
def orderedFlush (phases : List (List (Nat × WriteIo β))) (canBlock : Bool) : Status × State β :=
  if dev = none ∨ ORDERED_FLUSH_PHASES_MAX < phases.length then (.invalidArgument, s)
  else if !canBlock then (.wouldBlock, s)
  else flushPhases dev canBlock s phases

/-- The first free entry of the table of protected blocks. -/
def freeGuard : Option Nat :=
  (range PROTECTED_BLOCKS_MAX).find? (fun p => !(s.guards p).used)

/-- `protect_blocks`. -/
def protectBlocks (s : State β) (dev : Option Nat) : List Nat → Status × State β
  | [] => if dev = none then (.invalidArgument, s) else (.success, s)
  | b :: rest =>
    if dev = none then (.invalidArgument, s)
    else if isProtected s dev b then protectBlocks s dev rest
    else
      match freeGuard s with
      | none => (.noSpace, s)
      | some p =>
        protectBlocks { s with guards := update s.guards p ⟨dev, b, true⟩ } dev rest

/-- The entry of a protected block. -/
def guardOf (b : Nat) : Option Nat :=
  (range PROTECTED_BLOCKS_MAX).find? (fun p =>
    (s.guards p).used && (s.guards p).dev == dev && (s.guards p).blockNo == b)

/-- `unprotect_blocks`. -/
def unprotectBlocks (s : State β) (dev : Option Nat) : List Nat → State β
  | [] => s
  | b :: rest =>
    if dev = none then s
    else
      match guardOf s dev b with
      | none => unprotectBlocks s dev rest
      | some p =>
        unprotectBlocks { s with guards := update s.guards p ⟨none, 0, false⟩ } dev
          rest

/-- The first error of a loop that goes on after errors. -/
def firstError (acc status : Status) : Status := if acc = .success then status else acc

/-- One slot of `sync_device` and `sync_all`; `mine` says whether it is looked at. -/
def syncSlot (canBlock : Bool) (io : Nat → WriteIo β) (mine : BufferBlock β → Bool)
    (acc : Status × State β) (i : Nat) : Status × State β :=
  let s := acc.2
  let slot := s.slots i
  if !slot.used || !mine slot || !slot.dirty then acc
  else if isProtected s slot.dev slot.blockNo then (firstError acc.1 .ioError, s)
  else
    let done := writeBack s i canBlock (io i)
    (firstError acc.1 done.1, done.2)

/-- `sync_device`. -/
def syncDevice (canBlock : Bool) (io : Nat → WriteIo β) : Status × State β :=
  if dev = none then (.invalidArgument, s)
  else (range CACHE_BLOCKS).foldl (syncSlot canBlock io (fun slot => slot.dev == dev))
    (.success, s)

/-- `sync_all`. -/
def syncAll (canBlock : Bool) (io : Nat → WriteIo β) : Status × State β :=
  (range CACHE_BLOCKS).foldl (syncSlot canBlock io (fun _ => true)) (.success, s)

/-- A slot is emptied; its reference count is left as it is. -/
def drop (i : Nat) : State β :=
  s.setSlot i { s.slots i with
    dev := none, blockNo := 0, dirty := false, used := false, lastUse := 0 }

/-- One slot of `invalidate_device`. -/
def invalidateSlot (canBlock : Bool) (io : Nat → WriteIo β)
    (acc : Status × State β) (i : Nat) : Status × State β :=
  let s := acc.2
  let slot := s.slots i
  if !slot.used || slot.dev != dev || slot.refCount != 0 then acc
  else if slot.dirty then
    if isProtected s slot.dev slot.blockNo then (firstError acc.1 .ioError, s)
    else
      match writeBack s i canBlock (io i) with
      | (.success, s) => (acc.1, drop s i)
      | (status, s) => (firstError acc.1 status, s)
  else (acc.1, drop s i)

/-- `invalidate_device`. -/
def invalidateDevice (canBlock : Bool) (io : Nat → WriteIo β) : Status × State β :=
  if dev = none then (.invalidArgument, s)
  else (range CACHE_BLOCKS).foldl (invalidateSlot dev canBlock io) (.success, s)

/-! ## §4. Runs. -/

/-- A call, with how its transfers end.  Pointers to blocks are slot numbers. -/
inductive Event (β : Type) where
  | get (dev : Option Nat) (b : Nat) (canBlock allocOk : Bool) (wio : WriteIo β) (rio : ReadIo β)
  | put (i : Nat)
  | markDirty (i : Nat)
  | store (i : Nat) (x : β)
  | sync (i : Nat) (canBlock : Bool) (io : WriteIo β)
  | syncBlock (dev : Option Nat) (b : Nat) (canBlock : Bool) (io : WriteIo β)
  | orderedFlush (dev : Option Nat) (phases : List (List (Nat × WriteIo β))) (canBlock : Bool)
  | protect (dev : Option Nat) (blocks : List Nat)
  | unprotect (dev : Option Nat) (blocks : List Nat)
  | syncDevice (dev : Option Nat) (canBlock : Bool) (io : Nat → WriteIo β)
  | syncAll (canBlock : Bool) (io : Nat → WriteIo β)
  | invalidateDevice (dev : Option Nat) (canBlock : Bool) (io : Nat → WriteIo β)

def step : Event β → State β
  | .get dev b canBlock allocOk wio rio => (get s dev b canBlock allocOk wio rio).2
  | .put i => put s i
  | .markDirty i => markDirty s i
  | .store i x => store s i x
  | .sync i canBlock io => (sync s i canBlock io).2
  | .syncBlock dev b canBlock io => (syncBlock s dev b canBlock io).2
  | .orderedFlush dev phases canBlock => (orderedFlush s dev phases canBlock).2
  | .protect dev blocks => (protectBlocks s dev blocks).2
  | .unprotect dev blocks => unprotectBlocks s dev blocks
  | .syncDevice dev canBlock io => (syncDevice s dev canBlock io).2
  | .syncAll canBlock io => (syncAll s canBlock io).2
  | .invalidateDevice dev canBlock io => (invalidateDevice s dev canBlock io).2

def run (events : List (Event β)) : State β := events.foldl step s

/-- Every event of the run has the property in the state it is taken in. -/
def Always (P : State β → Event β → Prop) : State β → List (Event β) → Prop
  | _, [] => True
  | s, e :: events => P s e ∧ Always P (step s e) events

/-- No slot used and nothing pinned, whatever is on the devices and in the buffers. -/
def State.boot (disk : Nat → Nat → β) (pages : Nat → β) : State β where
  slots i := ⟨none, 0, pages i, false, false, 0, 0⟩
  guards _ := ⟨none, 0, false⟩
  initialized := false
  clock := 0
  disk := disk
  pins _ := 0
  view := disk

end BigOS.Fs.Bcache
