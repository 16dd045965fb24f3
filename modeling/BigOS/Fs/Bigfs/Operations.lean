/-
  BigOS.Fs.Bigfs.Operations — the operations of bigfs, without I/O errors.

  The state has the blocks as the cache holds them (`live`) and as the device does
  (`disk`).  An operation changes the former and commits a plan of blocks, which
  copies these to the device; `fsync` copies all.  What the journal does on the way
  is in `Fs.Journal`, and what failing writes do in `Bigfs.Fsync`.

  `openRefs` is `g_open_refs`, of 32 bits; `opens` counts the opens of an inode that
  have not been closed.  Pointers are not null, the mount is initialized, and the
  time of an operation is one of its arguments.

  Main definitions:
    • `Volume` — the state of a mount,
    • `resolveParent`, `permits` — paths and access,
    • `open_`, `closeInode`, `read`, `write`, `truncate`, `mkdir`, `unlink`, `rmdir`,
      `rename`, `utimens`, `sync` — the calls,
    • `Op`, `step`, `run` — histories.
-/
import BigOS.Fs.Bigfs.Image
import BigOS.Fs.Journal.Model

namespace BigOS.Fs.Bigfs

open BigOS.Fs.Journal Function

/-! ## §1. The mount. -/

structure Volume where
  live : Image
  disk : Image
  plan : List Nat
  pending : Bool
  openRefs : Nat → Nat
  opens : Nat → Nat

/-- The blocks of the plan are copied to the device. -/
def Image.copyBlocks (disk live : Image) (plan : List Nat) : Image where
  inodeBitmap := if INODE_BITMAP_BLOCK ∈ plan then live.inodeBitmap else disk.inodeBitmap
  dataBitmap := if DATA_BITMAP_BLOCK ∈ plan then live.dataBitmap else disk.dataBitmap
  inodes i := if inodeTableBlockNo i ∈ plan then live.inodes i else disk.inodes i
  blocks b := if b ∈ plan then live.blocks b else disk.blocks b

/-- `metadata_commit_add` of block after block, up to the first failure. -/
def planAdd : List Nat → List Nat → Bool × List Nat
  | plan, [] => (true, plan)
  | plan, b :: rest =>
    match metadataCommitAdd plan b with
    | none => (false, plan)
    | some plan => planAdd plan rest

variable (s : Volume)

/-- `metadata_commit_flush` of a persistent mount. -/
def metadataCommitFlush : Bool × Volume :=
  match metadataCommitAdd s.plan 0 with
  | none => (false, s)
  | some plan =>
    if JOURNAL_MAX_RECORDS < plan.length then (false, { s with plan := plan, pending := true })
    else
      (true, { s with
        disk := s.disk.copyBlocks s.live plan, plan := [], pending := false })

/-- A plan is started, the blocks are added to it, and it is flushed: what the
`metadata_commit_*` helpers have in common. -/
def commitBlocks (blocks : List Nat) : Status × Volume :=
  match planAdd [] blocks with
  | (false, plan) => (.noSpace, { s with plan := plan, pending := !plan.isEmpty })
  | (true, plan) =>
    match metadataCommitFlush { s with plan := plan, pending := !plan.isEmpty } with
    | (true, s) => (.success, s)
    | (false, s) => (.ioError, s)

/-- The blocks that `metadata_commit_inode_data` adds. -/
def inodeData (node : DiskInode) : List Nat := (directFrom node 0).filter (· ≠ 0)

/-- The blocks of `metadata_commit_file_create` and `metadata_commit_directory_create`. -/
def fileCreateBlocks (parent : Nat) (dir : DiskInode) (child : Nat) (node : DiskInode) : List Nat :=
  INODE_BITMAP_BLOCK :: inodeData node ++ inodeTableBlockNo child :: inodeData dir ++
    [inodeTableBlockNo parent]

/-- The blocks of `metadata_commit_unlink`. -/
def unlinkBlocks (parent : Nat) (dir : DiskInode) (target : Nat) (node old : DiskInode)
    (released : Bool) : List Nat :=
  inodeData dir ++ inodeTableBlockNo parent :: inodeData node ++ inodeTableBlockNo target ::
    inodeData old ++ if released then [DATA_BITMAP_BLOCK, INODE_BITMAP_BLOCK] else []

/-- The blocks of `metadata_commit_rename`. -/
def renameBlocks (oldParent : Nat) (oldDir : DiskInode) (newParent : Nat) (newDir : DiskInode) :
    List Nat :=
  inodeData newDir ++ inodeTableBlockNo newParent :: inodeData oldDir ++
    inodeTableBlockNo oldParent :: if oldParent ≠ newParent then [DATA_BITMAP_BLOCK] else []

/-- The blocks of `metadata_commit_growth`. -/
def growthBlocks (i : Nat) (file : DiskInode) (dataBlocks : List Nat) (allocated : Bool) :
    List Nat :=
  dataBlocks.filter (· ≠ 0) ++ inodeData file ++ (if allocated then [DATA_BITMAP_BLOCK] else []) ++
    [inodeTableBlockNo i]

/-- The blocks of `metadata_commit_truncate`. -/
def truncateBlocks (i : Nat) (committed old : DiskInode) (tail : Nat) (released : Bool) :
    List Nat :=
  (if tail ≠ 0 then [tail] else []) ++ inodeData committed ++ inodeTableBlockNo i ::
    if released then inodeData old ++ [DATA_BITMAP_BLOCK] else []

/-! ## §2. Paths and access. -/

/-- A string of C: its bytes are not zero. -/
structure CString where
  bytes : List UInt8
  noZero : (0 : UInt8) ∉ bytes

def SLASH : UInt8 := 47

/-- `MOUNT_PREFIX`, the string `/rw`. -/
def mountPoint : List UInt8 := [47, 114, 119]

/-- `strip_prefix`. -/
def stripMount (path : List UInt8) : Option (List UInt8) :=
  if path.take mountPoint.length ≠ mountPoint then none
  else
    match path.drop mountPoint.length with
    | [] => some []
    | c :: rest => if c = SLASH then some (c :: rest) else none

/-- The components of a path; any number of slashes separates them. -/
def components : List UInt8 → List (List UInt8)
  | [] => []
  | c :: rest =>
    if c = SLASH then components rest
    else
      match rest, components rest with
      | d :: _, w :: ws => if d = SLASH then [c] :: w :: ws else (c :: w) :: ws
      | _, ws => [c] :: ws

/-- `resolve_parent`, from a directory on: the parent and the last component. -/
def resolveFrom (img : Image) : Nat → List (List UInt8) → Except Status (Nat × List UInt8)
  | _, [] => .error .invalid
  | cur, [leaf] => if DIRENT_NAME_MAX + 1 ≤ leaf.length then .error .invalid else .ok (cur, leaf)
  | cur, comp :: rest =>
    if DIRENT_NAME_MAX + 1 ≤ comp.length then .error .invalid
    else if INODE_COUNT ≤ cur ∨ (img.inodes cur).type ≠ .directory then .error .notDirectory
    else
      match dirLookup img (img.inodes cur) comp with
      | none => .error .notFound
      | some child => resolveFrom img child rest

/-- `strip_prefix` and `resolve_parent`. -/
def resolveParent (img : Image) (path : CString) : Except Status (Nat × List UInt8) :=
  match stripMount path.bytes with
  | none => .error .invalid
  | some rest => resolveFrom img ROOT_INODE (components rest)

/-- The parent that `resolve_parent` finds is loaded; it must be a directory. -/
def resolveDir (img : Image) (path : CString) : Except Status (Nat × List UInt8) :=
  match resolveParent img path with
  | .error status => .error status
  | .ok (parent, leaf) =>
    if INODE_COUNT ≤ parent ∨ (img.inodes parent).type ≠ .directory then .error .notDirectory
    else .ok (parent, leaf)

inductive Access where
  | read
  | write
  deriving Repr, DecidableEq

/-- `cred::permits` for the two kinds of access that bigfs asks for: `S_IRUSR` and so
on are the bits of the mode. -/
def permits (node : DiskInode) (uid gid : Nat) (access : Access) : Bool :=
  if uid = 0 then true
  else
    let bit := match access with
      | .read => if uid = node.uid then 8 else if gid = node.gid then 5 else 2
      | .write => if uid = node.uid then 7 else if gid = node.gid then 4 else 1
    node.mode.testBit bit

/-! ## §3. Freeing and creating. -/

/-- `maybe_free_unlinked_inode`, with the inode as it leaves it. -/
def maybeFreeUnlinkedInode (i : Nat) (node : DiskInode) : DiskInode × Volume :=
  if i = ROOT_INODE ∨ INODE_COUNT ≤ i then (node, s)
  else if node.type = .free ∨ node.linkCount ≠ 0 ∨ s.openRefs i ≠ 0 then (node, s)
  else
    let released := { node with type := .free, size := 0, direct := fun d =>
      if d < DIRECT_BLOCKS then 0 else node.direct d }
    (released, { s with live :=
      ((freeBlocks s.live (directFrom node 0)).storeInode i released).setInodeBit i false })

/-- `discard_new_inode`. -/
def discardNewInode (img : Image) (i : Nat) : Image :=
  (img.storeInode i DiskInode.empty).setInodeBit i false

/-- `mtime` and `ctime` of a directory that changed. -/
def touchDir (dir : DiskInode) (now : Nat) : DiskInode := { dir with mtime := now, ctime := now }

/-- What `open` with `O_CREAT` and `mkdir` do once the name is known to be free: the new
inode is allocated, entered into its directory and committed. -/
def createChild (parent : Nat) (leaf : List UInt8) (node : DiskInode) (now : Nat) :
    Status × Option Nat × Volume :=
  match bitmapAlloc s.live.inodeBitmap INODE_COUNT with
  | none => (.noSpace, none, s)
  | some child =>
    let img := (s.live.setInodeBit child true).storeInode child node
    match dirAddEntry img parent (s.live.inodes parent) leaf child with
    | .error status => (status, none, { s with live := discardNewInode img child })
    | .ok (dir, img) =>
      let dir := touchDir dir now
      let img := img.storeInode parent dir
      match commitBlocks { s with live := img } (fileCreateBlocks parent dir child node) with
      | (.success, s) => (.success, some child, s)
      | (status, s) =>
        let img := (dirRemoveEntry s.live dir leaf).getD s.live
        (status, none, { s with live := discardNewInode img child })

/-- The new inode of a file or directory. -/
def newInode (type : InodeType) (linkCount mode uid gid now : Nat) : DiskInode :=
  ⟨type, mode, uid, gid, 0, now, now, now, linkCount, fun _ => 0⟩

/-! ## §4. Files. -/

/-- `truncate`. -/
def truncate (i length uid gid now : Nat) : Status × Volume :=
  if MAX_FILE_SIZE < length then (.noSpace, s)
  else if INODE_COUNT ≤ i then (.invalid, s)
  else
    let file := s.live.inodes i
    if file.type ≠ .regular then (.isDirectory, s)
    else if !permits file uid gid .write then (.accessDenied, s)
    else if length = file.size then (.success, s)
    else
      let keep := if length = 0 then 0 else (length - 1) / BLOCK_SIZE + 1
      let committed := { file with
        mtime := now, ctime := now, size := length
        direct := fun d => if keep ≤ d ∧ d < DIRECT_BLOCKS then 0 else file.direct d }
      -- The rest of a block that is kept in part is zeroed.
      let tail :=
        if length < file.size ∧ length % BLOCK_SIZE ≠ 0 ∧ length / BLOCK_SIZE < DIRECT_BLOCKS
        then file.direct (length / BLOCK_SIZE) else 0
      let img := s.live.storeInode i committed
      let img :=
        if tail = 0 then img
        else img.setBlock tail (patch (img.blocks tail) (length % BLOCK_SIZE)
          (List.replicate (BLOCK_SIZE - length % BLOCK_SIZE) 0))
      let gone := directFrom file keep
      commitBlocks { s with live := freeBlocks img gone }
        (truncateBlocks i committed file tail (gone.any (· ≠ 0)))

/-- The loop of `read`: chunk after chunk, a hole reads as zeros. -/
def readChunks (img : Image) (file : DiskInode) : Nat → Nat → Nat → List UInt8
  | 0, _, _ => []
  | fuel + 1, pos, remaining =>
    if remaining = 0 ∨ DIRECT_BLOCKS ≤ pos / BLOCK_SIZE then []
    else
      let chunk := min (BLOCK_SIZE - pos % BLOCK_SIZE) remaining
      let b := file.direct (pos / BLOCK_SIZE)
      let bytes := (List.range chunk).map (fun k =>
        if b = 0 then 0 else img.blocks b (pos % BLOCK_SIZE + k))
      bytes ++ readChunks img file fuel (pos + chunk) (remaining - chunk)

/-- `read`, with the bytes it stores. -/
def read (i offset len now : Nat) : Status × List UInt8 × Volume :=
  if len = 0 then (.success, [], s)
  else if INODE_COUNT ≤ i then (.invalid, [], s)
  else
    let file := s.live.inodes i
    if file.type ≠ .regular then (.isDirectory, [], s)
    else if file.size ≤ offset then (.success, [], s)
    else
      let remaining := min (file.size - offset) len
      let bytes := readChunks s.live file remaining offset remaining
      if bytes = [] then (.success, [], s)
      else
        let plan := (planAdd s.plan [inodeTableBlockNo i]).2
        (.success, bytes, { s with
          live := s.live.storeInode i { file with atime := now }
          plan := plan
          pending := s.pending || plan != s.plan })

/-- The loop of `write` that reserves the blocks the file lacks: the image, the direct
blocks and what was allocated, or the image after the rollback. -/
def reserveBlocks (file : DiskInode) :
    List Nat → Image → (Nat → Nat) → List Nat → Except Image (Image × (Nat → Nat) × List Nat)
  | [], img, direct, allocated => .ok (img, direct, allocated)
  | i :: rest, img, direct, allocated =>
    if file.direct i ≠ 0 then reserveBlocks file rest img direct allocated
    else
      match reserveDataBlock img with
      | none => .error (freeBlocks img allocated)
      | some (b, img) =>
        reserveBlocks file rest img (update direct i b) (allocated ++ [b])

/-- The loop of `write` that stages the bytes, chunk after chunk. -/
def stageBytes : Nat → (Nat → Block) → Nat → List UInt8 → (Nat → Block)
  | 0, staged, _, _ => staged
  | fuel + 1, staged, pos, bytes =>
    if bytes = [] then staged
    else
      let chunk := min (BLOCK_SIZE - pos % BLOCK_SIZE) bytes.length
      stageBytes fuel
        (update staged (pos / BLOCK_SIZE)
          (patch (staged (pos / BLOCK_SIZE)) (pos % BLOCK_SIZE) (bytes.take chunk)))
        (pos + chunk) (bytes.drop chunk)

/-- The staged blocks are copied to the blocks of the file. -/
def storeBlocks (img : Image) (direct : Nat → Nat) (staged : Nat → Block) (span : List Nat) :
    Image :=
  span.foldl (fun img i => img.setBlock (direct i) (staged i)) img

/-- `write`. -/
def write (i offset : Nat) (bytes : List UInt8) (uid gid now : Nat) : Status × Volume :=
  if bytes = [] then (.success, s)
  else if MAX_FILE_SIZE ≤ offset ∨ MAX_FILE_SIZE - offset < bytes.length then (.noSpace, s)
  else if INODE_COUNT ≤ i then (.invalid, s)
  else
    let file := s.live.inodes i
    if file.type ≠ .regular then (.isDirectory, s)
    else if !permits file uid gid .write then (.accessDenied, s)
    else
      let stop := offset + bytes.length
      let first := offset / BLOCK_SIZE
      let span := List.range' first ((stop - 1) / BLOCK_SIZE + 1 - first)
      let missing := span.countP (fun d => file.direct d == 0)
      if span.any (fun d => DIRECT_BLOCKS ≤ d) then (.noSpace, s)
      else if missing ≠ 0 ∧ bitmapCountFree s.live.dataBitmap DATA_BLOCK_COUNT < missing then
        (.noSpace, s)
      else
        match reserveBlocks file span s.live file.direct [] with
        | .error img => (.noSpace, { s with live := img })
        | .ok (img, direct, allocated) =>
          let committed := { file with
            mtime := now, ctime := now, direct := direct, size := max file.size stop }
          let staged := stageBytes bytes.length
            (fun d => if file.direct d ≠ 0 then img.blocks (direct d) else zeroBlock) offset bytes
          let img := (storeBlocks img direct staged span).storeInode i committed
          commitBlocks { s with live := img }
            (growthBlocks i committed (span.map direct) (!allocated.isEmpty))

/-! ## §5. Names. -/

structure OpenFlags where
  wronly : Bool
  rdwr : Bool
  creat : Bool
  trunc : Bool
  deriving Repr, DecidableEq

/-- `g_open_refs[i]++`. -/
def addRef (i : Nat) : Volume :=
  { s with
    openRefs := update s.openRefs i ((s.openRefs i + 1) % 2 ^ 32)
    opens := update s.opens i (s.opens i + 1) }

/-- `open` of a name that exists. -/
def openExisting (i : Nat) (flags : OpenFlags) (uid gid now : Nat) : Status × Option Nat × Volume :=
  if INODE_COUNT ≤ i then (.ioError, none, s)
  else
    let file := s.live.inodes i
    let wantWrite := flags.wronly || flags.rdwr || flags.trunc
    if file.type = .directory then
      if wantWrite || flags.creat then (.isDirectory, none, s)
      else if !permits file uid gid .read then (.accessDenied, none, s)
      else (.success, some i, addRef s i)
    else if !permits file uid gid (if wantWrite then .write else .read) then
      (.accessDenied, none, s)
    else if flags.trunc then
      match truncate s i 0 uid gid now with
      | (.success, s) => (.success, some i, addRef s i)
      | (status, s) => (status, none, s)
    else (.success, some i, addRef s i)

/-- `open`, with the inode it returns. -/
def open_ (path : CString) (flags : OpenFlags) (mode uid gid now : Nat) :
    Status × Option Nat × Volume :=
  match stripMount path.bytes with
  | none => (.invalid, none, s)
  | some rest =>
    if components rest = [] then
      if flags.wronly || flags.rdwr || flags.trunc || flags.creat then (.isDirectory, none, s)
      else if (s.live.inodes ROOT_INODE).type ≠ .directory then (.ioError, none, s)
      else (.success, some ROOT_INODE, addRef s ROOT_INODE)
    else
      match resolveDir s.live path with
      | .error status => (status, none, s)
      | .ok (parent, leaf) =>
        let dir := s.live.inodes parent
        match dirLookup s.live dir leaf with
        | some i => openExisting s i flags uid gid now
        | none =>
          if !flags.creat then (.notFound, none, s)
          else if !permits dir uid gid .write then (.accessDenied, none, s)
          else
            match createChild s parent leaf (newInode .regular 1 mode uid gid now) now with
            | (.success, some child, s) => (.success, some child, addRef s child)
            | (status, _, s) => (status, none, s)

/-- `close_inode`. -/
def closeInode (i : Nat) : Volume :=
  if INODE_COUNT ≤ i then s
  else
    let s := { s with
      openRefs := update s.openRefs i (s.openRefs i - 1)
      opens := update s.opens i (s.opens i - 1) }
    (maybeFreeUnlinkedInode s i (s.live.inodes i)).2

/-- `mkdir`. -/
def mkdir (path : CString) (mode uid gid now : Nat) : Status × Volume :=
  match resolveDir s.live path with
  | .error status => (status, s)
  | .ok (parent, leaf) =>
    let dir := s.live.inodes parent
    if (dirLookup s.live dir leaf).isSome then (.exists_, s)
    else if !permits dir uid gid .write then (.accessDenied, s)
    else
      let r := createChild s parent leaf (newInode .directory 2 mode uid gid now) now
      (r.1, r.2.2)

/-- What `unlink` and `rmdir` do once the target is known to be removable. -/
def removeTarget (parent : Nat) (leaf : List UInt8) (target now : Nat) : Status × Volume :=
  let dir := s.live.inodes parent
  let old := s.live.inodes target
  let node := { old with linkCount := 0, ctime := now }
  let img := s.live.storeInode target node
  match dirRemoveEntry img dir leaf with
  | none => (.notFound, { s with live := img.storeInode target old })
  | some img =>
    let dir := touchDir dir now
    let r := maybeFreeUnlinkedInode { s with live := img.storeInode parent dir } target node
    commitBlocks r.2 (unlinkBlocks parent dir target r.1 old (r.1.type == .free))

/-- `unlink`. -/
def unlink (path : CString) (uid gid now : Nat) : Status × Volume :=
  match resolveDir s.live path with
  | .error status => (status, s)
  | .ok (parent, leaf) =>
    let dir := s.live.inodes parent
    match dirLookup s.live dir leaf with
    | none => (.notFound, s)
    | some target =>
      if !permits dir uid gid .write then (.accessDenied, s)
      else if INODE_COUNT ≤ target then (.ioError, s)
      else if (s.live.inodes target).type = .directory then (.isDirectory, s)
      else removeTarget s parent leaf target now

/-- `rmdir`. -/
def rmdir (path : CString) (uid gid now : Nat) : Status × Volume :=
  match resolveDir s.live path with
  | .error status => (status, s)
  | .ok (parent, leaf) =>
    let dir := s.live.inodes parent
    match dirLookup s.live dir leaf with
    | none => (.notFound, s)
    | some target =>
      if !permits dir uid gid .write then (.accessDenied, s)
      else if INODE_COUNT ≤ target then (.ioError, s)
      else if (s.live.inodes target).type = .regular then (.notDirectory, s)
      else if (s.live.inodes target).type ≠ .directory then (.invalid, s)
      else if !dirIsEmpty s.live (s.live.inodes target) then (.notEmpty, s)
      else removeTarget s parent leaf target now

/-- `rename` within one directory. -/
def renameInPlace (parent : Nat) (oldLeaf newLeaf : List UInt8) (target now : Nat) :
    Status × Volume :=
  let dir := s.live.inodes parent
  match dirFindSlot s.live dir oldLeaf with
  | none => (.notFound, s)
  | some k =>
    let img := setSlot s.live dir k newLeaf target
    let img := img.storeInode target { s.live.inodes target with ctime := now }
    let dir := touchDir dir now
    commitBlocks { s with live := img.storeInode parent dir } (renameBlocks parent dir parent dir)

/-- `rename` into another directory. -/
def renameAcross (oldParent : Nat) (oldLeaf : List UInt8) (newParent : Nat)
    (newLeaf : List UInt8) (target now : Nat) : Status × Volume :=
  let oldDir := s.live.inodes oldParent
  match dirFindSlot s.live oldDir oldLeaf with
  | none => (.notFound, s)
  | some src =>
    match dirReserveSlot s.live newParent (s.live.inodes newParent) with
    | .error status => (status, s)
    | .ok (dst, newDir, img) =>
      let img := clearSlot (setSlot img newDir dst newLeaf target) oldDir src
      let img := img.storeInode target { s.live.inodes target with ctime := now }
      let oldDir := touchDir oldDir now
      let newDir := touchDir newDir now
      commitBlocks { s with
        live := (img.storeInode oldParent oldDir).storeInode newParent newDir }
        (renameBlocks oldParent oldDir newParent newDir)

/-- `rename`. -/
def rename (oldPath newPath : CString) (uid gid now : Nat) : Status × Volume :=
  if (stripMount oldPath.bytes).isNone ∨ (stripMount newPath.bytes).isNone then (.invalid, s)
  else
    match resolveParent s.live oldPath with
    | .error status => (status, s)
    | .ok (oldParent, oldLeaf) =>
      match resolveParent s.live newPath with
      | .error status => (status, s)
      | .ok (newParent, newLeaf) =>
        let isDir := fun i => i < INODE_COUNT ∧ (s.live.inodes i).type = .directory
        let oldDir := s.live.inodes oldParent
        let newDir := s.live.inodes newParent
        if oldParent = newParent ∧ oldLeaf = newLeaf then (.success, s)
        else if ¬isDir oldParent ∨ ¬isDir newParent then (.notDirectory, s)
        else
          match dirLookup s.live oldDir oldLeaf with
          | none => (.notFound, s)
          | some target =>
            if (dirLookup s.live newDir newLeaf).isSome then (.exists_, s)
            else if !permits oldDir uid gid .write then (.accessDenied, s)
            else if newParent ≠ oldParent ∧ !permits newDir uid gid .write then
              (.accessDenied, s)
            else if INODE_COUNT ≤ target then (.ioError, s)
            else if (s.live.inodes target).type = .directory then (.isDirectory, s)
            else if (s.live.inodes target).type ≠ .regular then (.invalid, s)
            else if oldParent = newParent then
              renameInPlace s oldParent oldLeaf newLeaf target now
            else renameAcross s oldParent oldLeaf newParent newLeaf target now

/-- What a time of `utimens` becomes. -/
inductive TimeChange where
  | set (time : Nat)
  | now
  | omit
  deriving Repr, DecidableEq

def TimeChange.apply (old now : Nat) : TimeChange → Nat
  | .set time => time
  | .now => now
  | .omit => old

/-- The inode that a path names, the root included. -/
def resolveTarget (img : Image) (path : CString) : Except Status Nat :=
  match stripMount path.bytes with
  | none => .error .invalid
  | some rest =>
    if components rest = [] then .ok ROOT_INODE
    else
      match resolveDir img path with
      | .error status => .error status
      | .ok (parent, leaf) =>
        match dirLookup img (img.inodes parent) leaf with
        | none => .error .notFound
        | some i => .ok i

/-- `utimens` with flags that are supported and do not contradict each other. -/
def utimens (path : CString) (atime mtime : TimeChange) (uid gid now : Nat) : Status × Volume :=
  match resolveTarget s.live path with
  | .error status => (status, s)
  | .ok i =>
    let node := s.live.inodes i
    if INODE_COUNT ≤ i ∨ node.type = .free then (.notFound, s)
    else if !permits node uid gid .write then (.accessDenied, s)
    else
      let committed := { node with
        atime := atime.apply node.atime now, mtime := mtime.apply node.mtime now, ctime := now }
      let s := { s with live := s.live.storeInode i committed }
      match planAdd s.plan [inodeTableBlockNo i] with
      | (false, plan) => (.ioError, { s with plan := plan })
      | (true, plan) =>
        match metadataCommitFlush { s with plan := plan, pending := true } with
        | (true, s) => (.success, s)
        | (false, s) => (.ioError, s)

/-- `fsync`. -/
def sync : Status × Volume :=
  let r := if s.pending then metadataCommitFlush s else (true, s)
  if !r.1 then (.ioError, r.2) else (.success, { r.2 with disk := r.2.live })

/-! ## §6. Histories. -/

/-- The image that `format_current_device` leaves. -/
def Image.format (now : Nat) : Image where
  inodeBitmap i := i == ROOT_INODE
  dataBitmap _ := false
  inodes i := if i = ROOT_INODE then ⟨.directory, 493, 0, 0, 0, now, now, now, 2, fun _ => 0⟩
    else DiskInode.empty
  blocks _ := zeroBlock

/-- A device that was just formatted. -/
def Volume.format (now : Nat) : Volume where
  live := Image.format now
  disk := Image.format now
  plan := []
  pending := false
  openRefs _ := 0
  opens _ := 0

inductive Op where
  | open_ (path : CString) (flags : OpenFlags) (mode uid gid now : Nat)
  | close (i : Nat)
  | read (i offset len now : Nat)
  | write (i offset : Nat) (bytes : List UInt8) (uid gid now : Nat)
  | truncate (i length uid gid now : Nat)
  | mkdir (path : CString) (mode uid gid now : Nat)
  | unlink (path : CString) (uid gid now : Nat)
  | rmdir (path : CString) (uid gid now : Nat)
  | rename (oldPath newPath : CString) (uid gid now : Nat)
  | utimens (path : CString) (atime mtime : TimeChange) (uid gid now : Nat)
  | sync

/-- What an operation returns and leaves; `close` returns nothing. -/
def exec : Op → Status × Volume
  | .open_ path flags mode uid gid now =>
    let r := open_ s path flags mode uid gid now
    (r.1, r.2.2)
  | .close i => (.success, closeInode s i)
  | .read i offset len now =>
    let r := read s i offset len now
    (r.1, r.2.2)
  | .write i offset bytes uid gid now => write s i offset bytes uid gid now
  | .truncate i length uid gid now => truncate s i length uid gid now
  | .mkdir path mode uid gid now => mkdir s path mode uid gid now
  | .unlink path uid gid now => unlink s path uid gid now
  | .rmdir path uid gid now => rmdir s path uid gid now
  | .rename oldPath newPath uid gid now => rename s oldPath newPath uid gid now
  | .utimens path atime mtime uid gid now => utimens s path atime mtime uid gid now
  | .sync => sync s

def step (op : Op) : Volume := (exec s op).2

def runOps (ops : List Op) : Volume := ops.foldl step s

end BigOS.Fs.Bigfs
