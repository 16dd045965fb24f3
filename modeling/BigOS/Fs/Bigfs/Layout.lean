/-
  BigOS.Fs.Bigfs.Layout — where things are on a bigfs device.

  Blocks of 512 bytes: the superblock, the inode bitmap, the data bitmap, eight
  blocks of inodes, 32 blocks of journal, and the data.
-/
import Mathlib.Algebra.Group.Nat.Defs
import Mathlib.Data.Nat.Basic

namespace BigOS.Fs.Bigfs

def BLOCK_SIZE : Nat := 512

def TOTAL_BLOCKS : Nat := 256

def INODE_COUNT : Nat := 32

def INODE_SIZE : Nat := 128

def INODES_PER_BLOCK : Nat := BLOCK_SIZE / INODE_SIZE

def INODE_BITMAP_BLOCK : Nat := 1

def DATA_BITMAP_BLOCK : Nat := 2

def INODE_TABLE_START : Nat := 3

def INODE_TABLE_BLOCKS : Nat := INODE_COUNT / INODES_PER_BLOCK

def JOURNAL_START : Nat := INODE_TABLE_START + INODE_TABLE_BLOCKS

def JOURNAL_BLOCKS : Nat := 32

def JOURNAL_DESCRIPTOR_BLOCK : Nat := JOURNAL_START

def JOURNAL_COMMIT_BLOCK : Nat := JOURNAL_START + 1

def JOURNAL_CHECKPOINT_BLOCK : Nat := JOURNAL_START + 2

def JOURNAL_PAYLOAD_START : Nat := JOURNAL_START + 3

def JOURNAL_PAYLOAD_BLOCKS : Nat := JOURNAL_BLOCKS - 3

def JOURNAL_MAX_RECORDS : Nat := 24

def DATA_START : Nat := JOURNAL_START + JOURNAL_BLOCKS

def DATA_BLOCK_COUNT : Nat := TOTAL_BLOCKS - DATA_START

def DIRECT_BLOCKS : Nat := 8

def MAX_FILE_SIZE : Nat := DIRECT_BLOCKS * BLOCK_SIZE

def DIRENT_SIZE : Nat := 32

def DIRENT_NAME_MAX : Nat := 27

def DIRENTS_PER_BLOCK : Nat := BLOCK_SIZE / DIRENT_SIZE

def ROOT_INODE : Nat := 0

def METADATA_COMMIT_BLOCKS_MAX : Nat := 64

/-- The statuses of bigfs. -/
inductive Status where
  | success
  | invalid
  | notFound
  | exists_
  | noSpace
  | notDirectory
  | isDirectory
  | notEmpty
  | accessDenied
  | ioError
  | unsupported
  | wouldBlock
  deriving Repr, DecidableEq

/-- `inode_table_block_no`. -/
def inodeTableBlockNo (inode : Nat) : Nat := INODE_TABLE_START + inode / INODES_PER_BLOCK

end BigOS.Fs.Bigfs
