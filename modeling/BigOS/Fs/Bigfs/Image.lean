/-
  BigOS.Fs.Bigfs.Image — what the blocks of a bigfs device hold.

  The two bitmaps, the table of inodes and the data blocks.  A data block is its
  bytes; a directory's block is read as sixteen entries of 32 bytes, the inode
  number plus one (zero for an empty entry) and a name that ends at its first zero.

  Inode types are the three that the code stores.  Directories are searched slot by
  slot: slot `k` is entry `k % 16` of the block `direct[k / 16]`.

  Main definitions:
    • `DiskInode`, `Image` — inodes and the device,
    • `direntInode`, `direntName`, `direntSet`, `direntClear` — directory entries,
    • `bitmapAlloc`, `dirLookup`, `dirAddEntry`, `dirReserveSlot` — the helpers,
    • `validateMetadataInvariants` — the check at mount time.
-/
import Mathlib.Data.List.Range
import BigOS.Fs.Bigfs.Layout

namespace BigOS.Fs.Bigfs

open Function List

/-! ## §1. Inodes and blocks. -/

inductive InodeType where
  | free
  | regular
  | directory
  deriving Repr, DecidableEq

structure DiskInode where
  type : InodeType
  mode : Nat
  uid : Nat
  gid : Nat
  size : Nat
  atime : Nat
  mtime : Nat
  ctime : Nat
  linkCount : Nat
  direct : Nat → Nat

/-- An inode slot of zeros. -/
def DiskInode.empty : DiskInode := ⟨.free, 0, 0, 0, 0, 0, 0, 0, 0, fun _ => 0⟩

abbrev Block := Nat → UInt8

def zeroBlock : Block := fun _ => 0

/-- `memcpy` of the bytes to the offset. -/
def patch (block : Block) (offset : Nat) (bytes : List UInt8) : Block := fun k =>
  if offset ≤ k then (bytes[k - offset]?).getD (block k) else block k

structure Image where
  inodeBitmap : Nat → Bool
  dataBitmap : Nat → Bool
  inodes : Nat → DiskInode
  blocks : Nat → Block

variable (img : Image) (dir : DiskInode)

namespace Image

def setInodeBit (i : Nat) (bit : Bool) : Image :=
  { img with inodeBitmap := update img.inodeBitmap i bit }

def setDataBit (k : Nat) (bit : Bool) : Image :=
  { img with dataBitmap := update img.dataBitmap k bit }

/-- `store_inode` of a valid inode number. -/
def storeInode (i : Nat) (node : DiskInode) : Image :=
  { img with inodes := update img.inodes i node }

def setBlock (b : Nat) (block : Block) : Image :=
  { img with blocks := update img.blocks b block }

end Image

/-! ## §2. Bitmaps. -/

/-- `bitmap_alloc`: the first clear bit. -/
def bitmapAlloc (bitmap : Nat → Bool) (count : Nat) : Option Nat :=
  (range count).find? (fun i => !bitmap i)

/-- `bitmap_count_free`. -/
def bitmapCountFree (bitmap : Nat → Bool) (count : Nat) : Nat :=
  (range count).countP (fun i => !bitmap i)

/-- `reserve_data_block`. -/
def reserveDataBlock : Option (Nat × Image) :=
  (bitmapAlloc img.dataBitmap DATA_BLOCK_COUNT).map fun index =>
    (DATA_START + index, img.setDataBit index true)

/-- `alloc_data_block`: the block is zeroed. -/
def allocDataBlock : Option (Nat × Image) :=
  (reserveDataBlock img).map fun r => (r.1, r.2.setBlock r.1 zeroBlock)

/-- `free_data_block`. -/
def freeDataBlock (b : Nat) : Image :=
  if b < DATA_START then img else img.setDataBit (b - DATA_START) false

/-- The blocks of a list that are not zero are freed. -/
def freeBlocks (blocks : List Nat) : Image :=
  blocks.foldl (fun img b => if b = 0 then img else freeDataBlock img b) img

/-- The direct blocks from the given index on. -/
def directFrom (node : DiskInode) (start : Nat) : List Nat :=
  (range' start (DIRECT_BLOCKS - start)).map node.direct

/-! ## §3. Directory entries. -/

/-- `inode_plus_one` of an entry. -/
def direntInode (block : Block) (e : Nat) : Nat :=
  (block (e * DIRENT_SIZE)).toNat + 2 ^ 8 * (block (e * DIRENT_SIZE + 1)).toNat +
    2 ^ 16 * (block (e * DIRENT_SIZE + 2)).toNat + 2 ^ 24 * (block (e * DIRENT_SIZE + 3)).toNat

/-- `name` of an entry, up to its first zero. -/
def direntName (block : Block) (e : Nat) : List UInt8 :=
  ((range (DIRENT_NAME_MAX + 1)).map (fun k => block (e * DIRENT_SIZE + 4 + k))).takeWhile
    (· != 0)

/-- The bytes of a `uint32_t`. -/
def le32 (n : Nat) : List UInt8 :=
  [UInt8.ofNat n, UInt8.ofNat (n / 2 ^ 8), UInt8.ofNat (n / 2 ^ 16), UInt8.ofNat (n / 2 ^ 24)]

/-- A name cut to `DIRENT_NAME_MAX` and padded with zeros. -/
def nameField (name : List UInt8) : List UInt8 :=
  (range (DIRENT_NAME_MAX + 1)).map (fun k => (name.take DIRENT_NAME_MAX).getD k 0)

/-- `dirent_set`, also written out in `dir_add_entry`. -/
def direntSet (block : Block) (e : Nat) (name : List UInt8) (child : Nat) : Block :=
  patch block (e * DIRENT_SIZE) (le32 (child + 1) ++ nameField name)

/-- An entry is emptied. -/
def direntClear (block : Block) (e : Nat) : Block :=
  patch block (e * DIRENT_SIZE) (le32 0 ++ nameField [])

def DIR_SLOTS : Nat := DIRECT_BLOCKS * DIRENTS_PER_BLOCK

/-- The block of a slot of a directory. -/
def slotBlock (k : Nat) : Nat := dir.direct (k / DIRENTS_PER_BLOCK)

/-- The first slot of the directory's blocks whose entry has the property. -/
def findSlotWith (p : Block → Nat → Bool) : Option Nat :=
  (range DIR_SLOTS).find? (fun k =>
    slotBlock dir k != 0 && p (img.blocks (slotBlock dir k)) (k % DIRENTS_PER_BLOCK))

/-- `dir_find_slot`; names are compared as the strings they are. -/
def dirFindSlot (name : List UInt8) : Option Nat :=
  findSlotWith img dir (fun block e => direntInode block e != 0 && direntName block e == name)

/-- `dir_lookup`. -/
def dirLookup (name : List UInt8) : Option Nat :=
  (dirFindSlot img dir name).map (fun k =>
    direntInode (img.blocks (slotBlock dir k)) (k % DIRENTS_PER_BLOCK) - 1)

/-- The first empty slot in the blocks that the directory has. -/
def dirFreeSlot : Option Nat :=
  findSlotWith img dir (fun block e => direntInode block e == 0)

/-- `dir_is_empty`. -/
def dirIsEmpty : Bool :=
  (findSlotWith img dir (fun block e => direntInode block e != 0)).isNone

/-- The entry of a slot is written. -/
def setSlot (k : Nat) (name : List UInt8) (child : Nat) : Image :=
  img.setBlock (slotBlock dir k)
    (direntSet (img.blocks (slotBlock dir k)) (k % DIRENTS_PER_BLOCK) name child)

/-- The entry of a slot is emptied. -/
def clearSlot (k : Nat) : Image :=
  img.setBlock (slotBlock dir k)
    (direntClear (img.blocks (slotBlock dir k)) (k % DIRENTS_PER_BLOCK))

/-- `dir_reserve_slot`: an empty slot, in a new block if need be.  The directory's
inode is stored when it grows. -/
def dirReserveSlot (dirInode : Nat) (dir : DiskInode) : Except Status (Nat × DiskInode × Image) :=
  match dirFreeSlot img dir with
  | some k => .ok (k, dir, img)
  | none =>
    match (range DIRECT_BLOCKS).find? (fun i => dir.direct i == 0) with
    | none => .error .noSpace
    | some i =>
      match allocDataBlock img with
      | none => .error .noSpace
      | some (b, img) =>
        let committed :=
          { dir with direct := update dir.direct i b, size := dir.size + BLOCK_SIZE }
        .ok (i * DIRENTS_PER_BLOCK, committed, img.storeInode dirInode committed)

/-- `dir_add_entry`: the entry is written into the slot that `dir_reserve_slot` would
return. -/
def dirAddEntry (dirInode : Nat) (dir : DiskInode) (name : List UInt8)
    (child : Nat) : Except Status (DiskInode × Image) :=
  match dirReserveSlot img dirInode dir with
  | .error status => .error status
  | .ok (k, dir, img) => .ok (dir, setSlot img dir k name child)

/-- `dir_remove_entry`. -/
def dirRemoveEntry (name : List UInt8) : Option Image :=
  (dirFindSlot img dir name).map (clearSlot img dir)

/-! ## §4. The check at mount time. -/

/-- `validate_inode_shape`. -/
def validateInodeShape (i : Nat) (node : DiskInode) (bitmapUsed : Bool) : Bool :=
  if !bitmapUsed then node.type == .free
  else if node.type != .regular && node.type != .directory then false
  else if i == ROOT_INODE && node.type != .directory then false
  else if node.linkCount == 0 || MAX_FILE_SIZE < node.size then false
  else if node.type == .directory && node.size % BLOCK_SIZE != 0 then false
  else
    (range DIRECT_BLOCKS).all (fun d =>
      node.direct d == 0 || (DATA_START ≤ node.direct d && node.direct d < TOTAL_BLOCKS))

/-- One direct block of an inode: its bit is set and it has no owner yet. -/
def claimBlock (owned : Nat → Bool) (b : Nat) : Option (Nat → Bool) :=
  if b = 0 then some owned
  else if !img.dataBitmap (b - DATA_START) || owned (b - DATA_START) then none
  else some (update owned (b - DATA_START) true)

/-- One inode of the first loop of `validate_metadata_invariants`. -/
def validateInode (owned : Nat → Bool) (i : Nat) : Option (Nat → Bool) :=
  if !validateInodeShape i (img.inodes i) (img.inodeBitmap i) then none
  else if (img.inodes i).type = .free then some owned
  else (directFrom (img.inodes i) 0).foldlM (claimBlock img) owned

/-- The entry of a slot names an inode that is in use. -/
def validateEntry (block : Block) (e : Nat) : Bool :=
  direntInode block e == 0 ||
    (direntInode block e - 1 < INODE_COUNT && img.inodeBitmap (direntInode block e - 1) &&
      (img.inodes (direntInode block e - 1)).type != .free)

/-- `validate_metadata_invariants`, on blocks that can be read. -/
def validateMetadataInvariants : Status :=
  match (range INODE_COUNT).foldlM (validateInode img) (fun _ => false) with
  | none => .invalid
  | some owned =>
    if (range DATA_BLOCK_COUNT).any (fun k => img.dataBitmap k && !owned k) then .invalid
    else if (range INODE_COUNT).all (fun i =>
        (img.inodes i).type != .directory ||
          (range DIR_SLOTS).all (fun k =>
            slotBlock (img.inodes i) k == 0 ||
              validateEntry img (img.blocks (slotBlock (img.inodes i) k))
                (k % DIRENTS_PER_BLOCK)))
    then .success
    else .invalid

end BigOS.Fs.Bigfs
