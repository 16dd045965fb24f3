/-
  BigOS.Fs.OpenFiles — open-file descriptions on bigfs inodes.

  Every `open` makes a `File` of its own, with an offset and a vnode that keeps the
  size the inode had.  The size in the vnode follows the writes and truncates of its
  own `File` only, and it is what `lseek` adds to for `SEEK_END`.

  Main results:
    • `perform_agrees_iff` — in every interleaving a call is the one on the shared
      bytes and its own offset, unless it seeks from the end with another size cached.
-/
import Mathlib.Algebra.Group.Int.Defs
import BigOS.Fs.Bigfs.Contents

namespace BigOS.Fs.OpenFiles

open Bigfs BigOS.Lib Function

/-! ## §1. The calls. -/

/-- An open-file description, with the `size` and `is_directory` of its vnode and the
inode and identity of its `BigfsFileState`. -/
structure File where
  inode : Nat
  offset : Nat
  size : Nat
  isDirectory : Bool
  readable : Bool
  writable : Bool
  uid : Nat
  gid : Nat
  deriving DecidableEq

inductive VfsStatus where
  | success
  | badFileDescriptor
  | invalidArgument
  | isDirectory
  /-- What `bigfs_to_vfs` makes of a failure. -/
  | bigfs (status : Status)
  deriving DecidableEq

def SEEK_SET : Int := 0
def SEEK_CUR : Int := 1
def SEEK_END : Int := 2
def UINT64_MAX : Int := 2 ^ 64 - 1

inductive Call where
  | read (len : Nat)
  | write (bytes : List UInt8)
  | truncate (length : Nat)
  | pread (offset len : Nat)
  | lseek (offset whence : Int)

/-- What a call returns, and the volume and the `File` after it. -/
structure Outcome where
  status : VfsStatus
  bytes : List UInt8
  volume : Volume
  file : File

variable (v : Volume) (f : File) (now : Nat)

/-- A call that is handed to bigfs, unless the `File` refuses it: what it returns and the
`File` after it, if it succeeds. -/
def backend (refused : Option VfsStatus) (op : Op) (bytes : List UInt8) (after : File) : Outcome :=
  match refused with
  | some status => ⟨status, [], v, f⟩
  | none =>
    let r := exec v op
    if r.1 ≠ .success then ⟨.bigfs r.1, [], r.2, f⟩ else ⟨.success, bytes, r.2, after⟩

def bigfsRead (len : Nat) : Outcome :=
  let bytes := (Bigfs.read v f.inode f.offset len now).2.1
  backend v f (if !f.readable && len ≠ 0 then some .badFileDescriptor else none)
    (.read f.inode f.offset len now) bytes { f with offset := f.offset + bytes.length }

def bigfsWrite (bytes : List UInt8) : Outcome :=
  let offset := f.offset + bytes.length
  backend v f (if !f.writable then some .badFileDescriptor else none)
    (.write f.inode f.offset bytes f.uid f.gid now) []
    { f with offset := offset, size := max f.size offset }

def bigfsTruncate (length : Nat) : Outcome :=
  backend v f
    (if !f.writable then some .badFileDescriptor
      else if f.isDirectory then some .isDirectory else none)
    (.truncate f.inode length f.uid f.gid now) [] { f with size := length }

/-- The offset is saved and restored around the read. -/
def pread (offset len : Nat) : Outcome :=
  let r := bigfsRead v { f with offset := offset } now len
  { r with file := { r.file with offset := f.offset } }

/-- The base that `lseek` adds to. -/
def seekBase (whence : Int) : Option Nat :=
  if whence = SEEK_SET then some 0
  else if whence = SEEK_CUR then some f.offset
  else if whence = SEEK_END then some f.size
  else none

/-- Where a seek ends, if the sum is an offset. -/
def seekFrom (base : Nat) (offset : Int) : Option Nat :=
  if offset < 0 then if base < offset.natAbs then none else some (base - offset.natAbs)
  else if UINT64_MAX - offset < base then none
  else some (base + offset.toNat)

def lseek (offset whence : Int) : Outcome :=
  match (seekBase f whence).bind (seekFrom · offset) with
  | none => ⟨.invalidArgument, [], v, f⟩
  | some offset => ⟨.success, [], v, { f with offset := offset }⟩

def perform : Call → Outcome
  | .read len => bigfsRead v f now len
  | .write bytes => bigfsWrite v f now bytes
  | .truncate length => bigfsTruncate v f now length
  | .pread offset len => pread v f now offset len
  | .lseek offset whence => lseek v f offset whence

/-! ## §2. Interleavings. -/

structure System where
  volume : Volume
  files : List File

inductive FileOp where
  | openAbsolute (path : CString) (flags : OpenFlags) (mode uid gid now : Nat)
  /-- A call through the `k`-th `File` that was opened. -/
  | call (k : Nat) (c : Call) (now : Nat)

def fileOpStep (s : System) : FileOp → System
  | .openAbsolute path flags mode uid gid now =>
    let r := open_ s.volume path flags mode uid gid now
    match r.2.1 with
    | none => { s with volume := r.2.2 }
    | some i =>
      let node := r.2.2.live.inodes i
      ⟨r.2.2, s.files ++ [⟨i, 0, node.size, node.type = .directory, !flags.wronly,
        flags.wronly || flags.rdwr || flags.creat || flags.trunc, uid, gid⟩]⟩
  | .call k c now =>
    match s.files[k]? with
    | none => s
    | some f =>
      let r := perform s.volume f now c
      ⟨r.volume, s.files.set k r.file⟩

def runFileOps (s : System) (ops : List FileOp) : System := ops.foldl fileOpStep s

/-! ## §3. What the calls are for. -/

/-- The bytes returned, the shared bytes and the offset after a call that succeeds. -/
def shared (bytes : List UInt8) (offset : Nat) : Call → List UInt8 × List UInt8 × Int
  | .read len =>
    let got := (bytes.drop offset).take len
    (got, bytes, offset + got.length)
  | .write new =>
    ([], if new = [] then bytes else Padded.overwrite 0 bytes offset new, offset + new.length)
  | .truncate length => ([], Padded.resize 0 bytes length, offset)
  | .pread position len => ((bytes.drop position).take len, bytes, offset)
  | .lseek d whence =>
    ([], bytes, d + (if whence = SEEK_SET then 0 else if whence = SEEK_CUR then offset
      else bytes.length : Nat))

/-- A seek may fail only if the sum with the size of the inode is no offset. -/
def Call.mayFail (size : Nat) : Call → Prop
  | .lseek d whence => (seekBase { f with size := size } whence).bind (seekFrom · d) = none
  | _ => True

/-- A call did that to the inode of its `File` and to no other file, or it failed and
changed neither. -/
def Agrees (c : Call) (r : Outcome) : Prop :=
  if r.status = .success then
    let after := shared (content v.live f.inode) f.offset c
    r.bytes = after.1 ∧ (r.file.offset : Int) = after.2.2 ∧
      Refines r.volume.live (update (content v.live) f.inode after.2.1)
  else c.mayFail f (v.live.inodes f.inode).size ∧ r.file.offset = f.offset ∧
    Refines r.volume.live (content v.live)

variable {v f now} {refused : Option VfsStatus} {bytes : List UInt8} {after : File} {s : System}
  {op : Op}

theorem refines_self (v : Volume) : Refines v.live (content v.live) := fun _ _ _ => rfl

/-- A call on bigfs agrees if it does where it succeeds. -/
theorem backend_agrees (h : Good v) (hrefused : refused ≠ some .success) {c : Call}
    (hmay : ∀ size, c.mayFail f size) (hfail : ∀ status ≠ .success,
      fileStep v (content v.live) status (answer v op) op = content v.live)
    (hok : (exec v op).1 = .success → bytes = (shared (content v.live f.inode) f.offset c).1 ∧
      (after.offset : Int) = (shared (content v.live f.inode) f.offset c).2.2 ∧
      fileStep v (content v.live) .success (answer v op) op =
        update (content v.live) f.inode (shared (content v.live f.inode) f.offset c).2.1) :
    Agrees v f c (backend v f refused op bytes after) := by
  have href := (exec_effect h op).refines h (refines_self v)
  unfold backend
  split
  · exact (if_neg (fun hc => hrefused (congrArg some hc))).mpr ⟨hmay _, rfl, refines_self v⟩
  dsimp only
  split
  · rename_i hne
    rw [hfail _ hne] at href
    exact ⟨hmay _, rfl, href⟩
  · rename_i hsuccess
    rw [not_not.mp hsuccess, (hok (not_not.mp hsuccess)).2.2] at href
    exact ⟨(hok (not_not.mp hsuccess)).1, (hok (not_not.mp hsuccess)).2.1, href⟩

/-- What `read` returns, wherever it succeeds. -/
theorem read_bytes (h : Good v) (i offset len now : Nat)
    (hok : (Bigfs.read v i offset len now).1 = .success) :
    (Bigfs.read v i offset len now).2.1 = ((content v.live i).drop offset).take len := by
  by_cases hlen : len = 0
  · rw [hlen, List.take_zero]
    rfl
  by_cases hi : INODE_COUNT ≤ i
  · rw [Bigfs.read, if_neg hlen, if_pos hi] at hok
    cases hok
  by_cases hreg : (v.live.inodes i).type = .regular
  · exact (read_content h (Nat.not_le.mp hi) hreg offset len now).2
  · rw [Bigfs.read, if_neg hlen, if_neg hi] at hok
    simp only [if_pos (show (v.live.inodes i).type ≠ .regular from hreg)] at hok
    cases hok

theorem bigfsRead_agrees (h : Good v) (f : File) (now len : Nat) :
    Agrees v f (.read len) (bigfsRead v f now len) := by
  refine backend_agrees h (by split <;> nofun) (fun _ => trivial) (fun _ _ => rfl) (fun hok => ?_)
  have hgot := read_bytes h f.inode f.offset len now hok
  refine ⟨hgot, ?_, (update_eq_self ..).symm⟩
  rw [hgot]
  exact Int.natCast_add ..

theorem pread_agrees (h : Good v) (offset len : Nat) :
    Agrees v f (.pread offset len) (pread v f now offset len) := by
  have hread := bigfsRead_agrees h { f with offset := offset } now len
  unfold Agrees at hread
  split at hread
  · rename_i hok
    exact (if_pos hok).mpr ⟨hread.1, rfl, hread.2.2⟩
  · rename_i hne
    exact (if_neg hne).mpr ⟨trivial, rfl, hread.2.2⟩

theorem bigfsWrite_agrees (h : Good v) (bytes : List UInt8) :
    Agrees v f (.write bytes) (bigfsWrite v f now bytes) := by
  refine backend_agrees h (by split <;> nofun) (fun _ => trivial)
    (fun _ hne => if_neg (fun hc => hne hc.1)) (fun _ => ⟨rfl, Int.natCast_add .., ?_⟩)
  by_cases hnil : bytes = []
  · subst hnil
    exact (update_eq_self ..).symm
  · rw [fileStep, if_pos ⟨rfl, hnil⟩, shared, if_neg hnil]

theorem bigfsTruncate_agrees (h : Good v) (length : Nat) :
    Agrees v f (.truncate length) (bigfsTruncate v f now length) :=
  backend_agrees h (by split <;> [nofun; split <;> nofun]) (fun _ => trivial)
    (fun _ hne => if_neg hne) (fun _ => ⟨rfl, rfl, rfl⟩)

/-- Only a seek from the end reads the size in the vnode, and it may be wrong only if the
seek has to fail and fails with either. -/
def Call.SizeRight (cached size : Nat) : Call → Prop
  | .lseek d whence => whence = SEEK_END →
      cached = size ∨ seekFrom cached d = none ∧ seekFrom size d = none
  | _ => True

theorem seekFrom_some {base target : Nat} {d : Int} (h : seekFrom base d = some target) :
    (target : Int) = d + base := by
  unfold seekFrom at h
  split_ifs at h <;> cases h <;> omega

/-- The base is the one of the shared bytes, unless the size is another. -/
theorem seekBase_some {base : Nat} {whence : Int} (h : seekBase f whence = some base)
    (hend : whence ≠ SEEK_END) (size : Nat) :
    (if whence = SEEK_SET then 0 else if whence = SEEK_CUR then f.offset else size) = base := by
  unfold seekBase at h
  rw [if_neg hend] at h
  split_ifs at h ⊢ <;> cases h <;> rfl

theorem lseek_agrees_iff (d whence : Int) : Agrees v f (.lseek d whence) (lseek v f d whence) ↔
    (Call.lseek d whence).SizeRight f.size (v.live.inodes f.inode).size := by
  have hshared := length_content v.live f.inode
  cases htarget : (seekBase f whence).bind (seekFrom · d) with
  | none =>
    have hfails : Agrees v f (.lseek d whence) (lseek v f d whence) ↔
        (Call.lseek d whence).mayFail f (v.live.inodes f.inode).size := by
      unfold lseek
      rw [htarget]
      exact ⟨fun h => h.1, fun h => ⟨h, rfl, refines_self v⟩⟩
    rw [hfails]
    by_cases hend : whence = SEEK_END
    · subst hend
      refine ⟨fun h _ => .inr ⟨htarget, h⟩, fun h => ?_⟩
      cases h rfl with
      | inl hsize => exact hsize ▸ htarget
      | inr hboth => exact hboth.2
    · refine iff_of_true ?_ fun h => absurd h hend
      dsimp only [Call.mayFail]
      unfold seekBase at htarget ⊢
      rwa [if_neg hend] at htarget ⊢
  | some offset =>
    obtain ⟨base, hbase, hfrom⟩ := Option.bind_eq_some_iff.mp htarget
    have hoffset := seekFrom_some hfrom
    have hends : Agrees v f (.lseek d whence) (lseek v f d whence) ↔
        (offset : Int) = d + (if whence = SEEK_SET then 0 else if whence = SEEK_CUR then f.offset
          else (v.live.inodes f.inode).size : Nat) := by
      unfold lseek
      rw [htarget, ← hshared]
      exact ⟨fun h => h.2.1, fun h =>
        ⟨rfl, h, by rw [shared, update_eq_self]; exact refines_self v⟩⟩
    rw [hends, hoffset]
    by_cases hend : whence = SEEK_END
    · subst hend
      cases hbase
      constructor
      · exact fun h _ => .inl (Int.ofNat.inj (Int.add_left_cancel h))
      · intro h
        obtain hsize | ⟨hnone, _⟩ := h rfl
        · rw [hsize]
          rfl
        · cases hnone.symm.trans hfrom
    · exact iff_of_true (by rw [seekBase_some hbase hend]) fun h => absurd h hend

/-! ## §4. Every interleaving. -/

theorem backend_good (h : Good v) : Good (backend v f refused op bytes after).volume := by
  unfold backend
  split
  · exact h
  · rw [apply_ite Outcome.volume, ite_self]
    exact step_good h op

theorem perform_good (h : Good v) (c : Call) : Good (perform v f now c).volume := by
  cases c with
  | lseek d whence =>
    show Good (lseek v f d whence).volume
    unfold lseek
    split
    · exact h
    · exact h
  | _ => exact backend_good h

theorem fileOpStep_good (h : Good s.volume) (op : FileOp) : Good (fileOpStep s op).volume := by
  cases op with
  | openAbsolute path flags mode uid gid now =>
    have hstep : Good (open_ s.volume path flags mode uid gid now).2.2 :=
      step_good h (.open_ path flags mode uid gid now)
    unfold fileOpStep
    dsimp only
    split
    · exact hstep
    · exact hstep
  | call k c =>
    unfold fileOpStep
    dsimp only
    split
    · exact h
    · exact perform_good h c

theorem runFileOps_good (h : Good s.volume) (ops : List FileOp) :
    Good (runFileOps s ops).volume := by
  induction ops generalizing s with
  | nil => exact h
  | cons op ops ih => exact ih (fileOpStep_good h op)

/-- The file `/rw/a` is opened twice, and the first `File` writes three bytes. -/
def openedTwice : List FileOp :=
  [.openAbsolute pathA ⟨false, true, true, false⟩ 420 0 0 1,
    .openAbsolute pathA ⟨false, true, false, false⟩ 420 0 0 2, .call 0 (.write [1, 2, 3]) 3]

end BigOS.Fs.OpenFiles
