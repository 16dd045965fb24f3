/-
  BigOS.Proc.Descriptors — descriptor tables and the files that they refer to.

  A file is referred to by the entries of descriptor tables, by file-backed areas and by
  the directory of shared read-only pages; its count says how often, and the last
  reference to go closes it.  Tables grow into new storage and free the old one.

  `dup2` keeps a pointer into the table across a growth and reads the file to bind through
  it.  What is found in the freed storage is a parameter of the operation.

  Main results:
    • `step_sound` — every operation that reads no freed table keeps the counts exact,
    • `descriptors_exact` — a run of such operations, and what descriptors it hands out.
-/
import BigOS.Lib.Retained
import Mathlib.Algebra.Order.BigOperators.Group.List

namespace BigOS.Proc

open BigOS.Lib List Option

def MAX_FDS_SOFT_LIMIT : Nat := 256
def FD_TABLE_INITIAL_CAPACITY : Nat := 16

/-! ## §1. Tables and processes. -/

structure FdEntry where
  file : Option Nat
  closeOnExec : Bool
deriving DecidableEq

def FdEntry.empty : FdEntry := ⟨none, false⟩

/-- `grow_fd_table`; `room` says whether the heap has the new storage. -/
def growFdTable (fds : List FdEntry) (minCapacity : Nat) (room : Bool) : Option (List FdEntry) :=
  if MAX_FDS_SOFT_LIMIT < minCapacity then none
  else if minCapacity ≤ fds.length then some fds
  else if !room then none
  else
    let doubled := if fds.length = 0 then FD_TABLE_INITIAL_CAPACITY else fds.length * 2
    let capacity := min (max doubled minCapacity) MAX_FDS_SOFT_LIMIT
    some (fds ++ replicate (capacity - fds.length) FdEntry.empty)

/-- The first descriptor from `start` on that is free or beyond the table. -/
def firstFree (fds : List FdEntry) (start : Nat) : Nat :=
  start + (fds.drop start).findIdx (·.file.isNone)

/-- The files of a table, in the order of the descriptors. -/
def tableFiles (fds : List FdEntry) : List Nat := fds.flatMap (·.file.toList)

/-- A process: its table and the files of its file-backed areas. -/
structure FdProcess where
  running : Bool
  fds : List FdEntry
  areas : List Nat

namespace FdProcess

def files (p : FdProcess) : List Nat := tableFiles p.fds ++ p.areas

/-- `file_for_fd_current`. -/
def fileAt (p : FdProcess) (fd : Nat) : Option Nat := p.fds[fd]?.bind (·.file)

def setFd (p : FdProcess) (fd : Nat) (entry : FdEntry) : FdProcess :=
  { p with fds := p.fds.set fd entry }

/-- `close_on_exec_fds`: what is closed. -/
def execFiles (p : FdProcess) : List Nat := tableFiles (p.fds.filter (·.closeOnExec))

/-- `close_on_exec_fds`: what is left. -/
def execFds (p : FdProcess) : List FdEntry :=
  p.fds.map (fun e => if e.file.isSome && e.closeOnExec then FdEntry.empty else e)

end FdProcess

structure FdSystem where
  procs : List FdProcess
  /-- The backing files of the directory of shared read-only pages. -/
  pages : List Nat
  files : Retained
  /-- How often a table was read that a growth had freed. -/
  freedReads : Nat

namespace FdSystem

variable (s : FdSystem) (pid : Nat)

def empty : FdSystem := ⟨[], [], ⟨0, fun _ => 0, fun _ => 0⟩, 0⟩

/-- How many entries, areas and pages refer to a file. -/
def held (f : Nat) : Nat := (s.procs.flatMap (·.files) ++ s.pages).count f

def setProc (p : FdProcess) : FdSystem :=
  { s with procs := s.procs.set pid p }

def create : FdSystem := { s with files := s.files.create }
def retain (file : Nat) : FdSystem := { s with files := s.files.retain file }
def release (file : Nat) : FdSystem := { s with files := s.files.release file }
def retainAll (l : List Nat) : FdSystem :=
  { s with files := l.foldl Retained.retain s.files }
def releaseAll (l : List Nat) : FdSystem :=
  { s with files := l.foldl Retained.release s.files }

/-- The process that makes a call. -/
def current : Option FdProcess := s.procs[pid]?.filter (·.running)

/-- The process that makes a call and the file of a descriptor of it. -/
def fileFor (pid fd : Nat) : Option (FdProcess × Nat) :=
  (s.current pid).bind (fun p => (p.fileAt fd).map (p, ·))

/-- A call that begins with the file of a descriptor; what it returns is a descriptor,
zero or an error. -/
def withFile (pid fd : Nat) (call : FdProcess → Nat → Option Nat × FdSystem) :
    Option Nat × FdSystem :=
  match s.fileFor pid fd with
  | none => (none, s)
  | some (p, file) => call p file

/-- A call of a process that runs. -/
def withProcess (call : FdProcess → FdSystem) : FdSystem :=
  match s.current pid with
  | none => s
  | some p => call p

/-- A descriptor of a process gives up its file. -/
def vacate (p : FdProcess) (fd file : Nat) : FdSystem :=
  (s.setProc pid (p.setFd fd FdEntry.empty)).release file

/-- A descriptor of a process comes to refer to one more file. -/
def occupy (p : FdProcess) (fd file : Nat) : FdSystem :=
  (s.retain file).setProc pid (p.setFd fd ⟨some file, false⟩)

/-- The table that holds a descriptor, grown where needed. -/
def reach (fds : List FdEntry) (fd : Nat) (room : Bool) : Option (List FdEntry) :=
  if fd < fds.length then some fds else growFdTable fds (fd + 1) room

/-- `install_fd_current`. -/
def installFd (pid file : Nat) (room : Bool) : Option Nat × FdSystem :=
  match s.current pid with
  | none => (none, s)
  | some p =>
    let fd := firstFree p.fds 0
    if p.fds.length ≤ fd ∧ MAX_FDS_SOFT_LIMIT ≤ fd then (none, s)
    else
      match reach p.fds fd room with
      | none => (none, s)
      | some fds => (some fd, s.setProc pid ({ p with fds }.setFd fd ⟨some file, false⟩))

/-- `close_fd_current`. -/
def closeFd (pid fd : Nat) : Option Nat × FdSystem :=
  s.withFile pid fd (fun p file => (some 0, s.vacate pid p fd file))

/-- A file that the caller holds is installed, or given up where that fails. -/
def installOrRelease (pid file : Nat) (room : Bool) : Option Nat × FdSystem :=
  match s.installFd pid file room with
  | (none, s) => (none, s.release file)
  | (some fd, s) => (some fd, s)

/-- `sys_open` and `sys_socket`, from where the file has been made. -/
def sysOpen (room : Bool) : Option Nat × FdSystem :=
  s.create.installOrRelease pid s.files.opened room

/-- `sys_pipe`; `copied` says whether the descriptors reach the caller's memory. -/
def sysPipe (room room' copied : Bool) : Option Nat × FdSystem :=
  let readFile := s.files.opened
  let writeFile := readFile + 1
  match s.create.create.installFd pid readFile room with
  | (none, s) => (none, (s.release readFile).release writeFile)
  | (some readFd, s) =>
    match s.installFd pid writeFile room' with
    | (none, s) => (none, (s.closeFd pid readFd).2.release writeFile)
    | (some writeFd, s) =>
      if copied then (some 0, s)
      else (none, ((s.closeFd pid readFd).2.closeFd pid writeFd).2)

/-- `dup_fd_current`. -/
def dupFd (pid old : Nat) (room : Bool) : Option Nat × FdSystem :=
  s.withFile pid old (fun _ file => (s.retain file).installOrRelease pid file room)

/-- The end of `dup2_fd_current`: what `new` referred to is given up first. -/
def rebind (p : FdProcess) (new : Nat) : Option Nat → FdSystem
  | none => s.setProc pid (p.setFd new FdEntry.empty)
  | some file =>
    match p.fileAt new with
    | none => s.occupy pid p new file
    | some previous =>
      (s.vacate pid p new previous).occupy pid (p.setFd new FdEntry.empty) new file

/-- `dup2_fd_current`; `stale` is what the freed table holds in the place of `old`. -/
def dup2Fd (pid old new : Nat) (room : Bool) (stale : Option Nat) : Option Nat × FdSystem :=
  s.withFile pid old (fun p file =>
    if MAX_FDS_SOFT_LIMIT ≤ new then (none, s)
    else if old = new then (some new, s)
    else if new < p.fds.length then (some new, s.rebind pid p new (some file))
    else
      match growFdTable p.fds (new + 1) room with
      | none => (none, s)
      | some fds =>
        -- `old` still points into the table that has just been freed.
        (some new, { s with freedReads := s.freedReads + 1 }.rebind pid { p with fds } new stale))

/-- `fcntl_fd_current` with `F_DUPFD`. -/
def fcntlDupFd (pid fd min : Nat) (room : Bool) : Option Nat × FdSystem :=
  s.withFile pid fd (fun p file =>
    let target := firstFree p.fds min
    if MAX_FDS_SOFT_LIMIT ≤ min ∨ MAX_FDS_SOFT_LIMIT ≤ target then (none, s)
    else
      match reach p.fds target room with
      | none => (none, s)
      | some fds => (some target, s.occupy pid { p with fds } target file))

/-- `fcntl_fd_current` with `F_SETFD`. -/
def fcntlSetFd (pid fd : Nat) (closeOnExec : Bool) : Option Nat × FdSystem :=
  s.withFile pid fd (fun p file => (some 0, s.setProc pid (p.setFd fd ⟨some file, closeOnExec⟩)))

/-- `run_user_process` with `install_standard_fds`: a new process on the terminal. -/
def launch (room : Bool) : FdSystem :=
  match growFdTable [] 3 room with
  | none => s
  | some fds =>
    let file := s.files.opened
    let entry : FdEntry := ⟨some file, false⟩
    let s := (s.create.retain file).retain file
    { s with procs := s.procs ++ [⟨true, ((fds.set 0 entry).set 1 entry).set 2 entry, []⟩] }

/-- `fork_current`: the pages are `cloned`, the table is `copied`, the child is `started`,
and what fails gives back what was retained. -/
def fork (cloned copied started : Bool) : FdSystem :=
  s.withProcess pid (fun p =>
    let s := s.retainAll p.areas
    if !cloned || !copied then s.releaseAll p.areas
    else
      let s := s.retainAll (tableFiles p.fds)
      if !started then (s.releaseAll (tableFiles p.fds)).releaseAll p.areas
      else { s with procs := s.procs ++ [p] })

/-- `execve_current`: `segments` areas refer to the image when it has been `loaded`, or when
that fails; `tornDown` says whether the old root could be torn down. -/
def exec (pid segments : Nat) (loaded tornDown : Bool) : FdSystem :=
  s.withProcess pid (fun p =>
    let image := s.files.opened
    let areas := replicate segments image
    let s := s.create.retainAll areas
    if !loaded then (s.releaseAll areas).release image
    -- The references of the old areas are not given back.
    else if !tornDown then (s.setProc pid { p with running := false, areas }).release image
    else
      let s := (s.setProc pid { p with fds := p.execFds, areas }).releaseAll p.execFiles
      (s.releaseAll p.areas).release image)

/-- `map_file_current`; `fits` says whether there is room for the area. -/
def mapFile (pid fd : Nat) (fits : Bool) : Option Nat × FdSystem :=
  s.withFile pid fd (fun p file =>
    if fits then (some 0, (s.retain file).setProc pid { p with areas := file :: p.areas })
    else (none, (s.retain file).release file))

/-- A fault enters a page of an area into the directory. -/
def publishPage (pid area : Nat) : FdSystem :=
  s.withProcess pid (fun p =>
    match p.areas[area]? with
    | none => s
    | some file => { s.retain file with pages := file :: s.pages })

/-- The last mapping of a page of the directory goes. -/
def dropPage (file : Nat) : FdSystem :=
  if file ∈ s.pages then { s with pages := s.pages.erase file }.release file else s

/-- `exit_current`. -/
def exit : FdSystem :=
  s.withProcess pid (fun p => s.setProc pid { p with running := false })

/-- `reap_pending_processes`, for one process. -/
def reap : FdSystem :=
  match s.procs[pid]?.filter (!·.running) with
  | none => s
  | some p => ((s.setProc pid ⟨false, [], []⟩).releaseAll (tableFiles p.fds)).releaseAll p.areas

end FdSystem

inductive FdOp where
  | launch (room : Bool)
  | openFile (pid : Nat) (room : Bool)
  | pipe (pid : Nat) (room room' copied : Bool)
  | dup (pid old : Nat) (room : Bool)
  | dup2 (pid old new : Nat) (room : Bool) (stale : Option Nat)
  | fcntlDup (pid fd min : Nat) (room : Bool)
  | fcntlSet (pid fd : Nat) (closeOnExec : Bool)
  | close (pid fd : Nat)
  | fork (pid : Nat) (cloned copied started : Bool)
  | exec (pid segments : Nat) (loaded tornDown : Bool)
  | mapFile (pid fd : Nat) (fits : Bool)
  | publishPage (pid area : Nat)
  | dropPage (file : Nat)
  | exit (pid : Nat)
  | reap (pid : Nat)

def FdSystem.step (s : FdSystem) : FdOp → FdSystem
  | .launch room => s.launch room
  | .openFile pid room => (s.sysOpen pid room).2
  | .pipe pid room room' copied => (s.sysPipe pid room room' copied).2
  | .dup pid old room => (s.dupFd pid old room).2
  | .dup2 pid old new room stale => (s.dup2Fd pid old new room stale).2
  | .fcntlDup pid fd min room => (s.fcntlDupFd pid fd min room).2
  | .fcntlSet pid fd closeOnExec => (s.fcntlSetFd pid fd closeOnExec).2
  | .close pid fd => (s.closeFd pid fd).2
  | .fork pid cloned copied started => s.fork pid cloned copied started
  | .exec pid segments loaded tornDown => s.exec pid segments loaded tornDown
  | .mapFile pid fd fits => (s.mapFile pid fd fits).2
  | .publishPage pid area => s.publishPage pid area
  | .dropPage file => s.dropPage file
  | .exit pid => s.exit pid
  | .reap pid => s.reap pid

def FdSystem.run (s : FdSystem) (ops : List FdOp) : FdSystem := ops.foldl FdSystem.step s

/-- The table of the caller reaches as far as `new`, or `dup2` does not get to need it. -/
def FdSystem.reaches (s : FdSystem) (pid old new : Nat) : Bool :=
  match s.fileFor pid old with
  | none => true
  | some (p, _) => MAX_FDS_SOFT_LIMIT ≤ new || old = new || new < p.fds.length

/-- No `dup2` grows a table, and an `exec` can tear the old root down. -/
def FdSystem.fits (s : FdSystem) : FdOp → Bool
  | .dup2 pid old new _ _ => s.reaches pid old new
  | .exec _ _ loaded tornDown => !loaded || tornDown
  | _ => true

def FdSystem.runFits (s : FdSystem) : List FdOp → Bool
  | [] => true
  | op :: rest => s.fits op && (s.step op).runFits rest


/-! ## §2. Moving references. -/

/-- The counts are exact when a call holds the references `own` itself. -/
structure FdSystem.Balanced (s : FdSystem) (own : List Nat) : Prop where
  files : s.files.Exact (fun f => s.held f + own.count f)
  unread : s.freedReads = 0

section

variable {s : FdSystem} {own own' l : List Nat} {pid fd file f : Nat} {p p' : FdProcess}
  {fds : List FdEntry}
  {e e' : FdEntry} {room : Bool}

theorem count_flatMap_set {α : Type} (g : α → List Nat) {l : List α} {i : Nat} {a : α}
    (h : l[i]? = some a) (b : α) (f : Nat) :
    ((l.set i b).flatMap g).count f + (g a).count f = (l.flatMap g).count f + (g b).count f := by
  induction l generalizing i with
  | nil => simp at h
  | cons c l ih =>
    cases i with
    | zero =>
      obtain rfl : c = a := by simpa using h
      simp only [set_cons_zero, flatMap_cons, count_append]
      omega
    | succ i =>
      have := ih (i := i) (by simpa using h)
      simp only [set_cons_succ, flatMap_cons, count_append]
      omega

theorem files_setFd (h : p.fds[fd]? = some e) (e' : FdEntry) (f : Nat) :
    (p.setFd fd e').files.count f + e.file.toList.count f =
      p.files.count f + e'.file.toList.count f := by
  have := count_flatMap_set (·.file.toList) h e' f
  simp only [FdProcess.files, FdProcess.setFd, tableFiles, count_append]
  omega

theorem held_pos (h : s.procs[pid]? = some p) (hf : f ∈ p.files) : 0 < s.held f :=
  count_pos_iff.mpr (mem_append_left _ (mem_flatMap.mpr ⟨p, mem_of_getElem? h, hf⟩))

namespace FdSystem.Balanced

theorem congr (h : s.Balanced own) (heq : ∀ f, own.count f = own'.count f) : s.Balanced own' :=
  ⟨h.files.congr (fun f => by rw [heq f]), h.unread⟩

theorem create (h : s.Balanced own) : s.create.Balanced (s.files.opened :: own) := by
  refine ⟨h.files.create.congr (fun f => ?_), h.unread⟩
  show s.held f + _ + _ = s.held f + _
  simp only [count_cons, beq_iff_eq, eq_comm (a := f)]
  omega

theorem retainAll (h : s.Balanced own) (hpos : ∀ f ∈ l, 0 < s.held f + own.count f) :
    (s.retainAll l).Balanced (l ++ own) := by
  refine ⟨(h.files.retainAll l hpos).congr (fun f => ?_), h.unread⟩
  show s.held f + _ + _ = s.held f + _
  rw [count_append]
  omega

theorem retain (h : s.Balanced own) (hpos : 0 < s.held file + own.count file) :
    (s.retain file).Balanced (file :: own) :=
  h.retainAll (l := [file]) (fun f hf => by rwa [mem_singleton.mp hf])

theorem releaseAll (h : s.Balanced (l ++ own)) : (s.releaseAll l).Balanced own := by
  refine ⟨Retained.Exact.releaseAll l (h.files.congr (fun f => ?_)), h.unread⟩
  show s.held f + _ = s.held f + _ + _
  rw [count_append]
  omega

theorem release (h : s.Balanced (file :: own)) : (s.release file).Balanced own :=
  h.releaseAll (l := [file])

/-- A process takes references over from the call, or leaves some to it. -/
theorem setProc (h : s.Balanced own) (hp : s.procs[pid]? = some p)
    (hmove : ∀ f, p'.files.count f + own'.count f = p.files.count f + own.count f) :
    (s.setProc pid p').Balanced own' := by
  refine ⟨h.files.congr (fun f => ?_), h.unread⟩
  have hheld := count_flatMap_set (·.files) hp p' f
  have := hmove f
  simp only [FdSystem.held, FdSystem.setProc, count_append]
  omega

theorem append (h : s.Balanced (p.files ++ own)) :
    FdSystem.Balanced { s with procs := s.procs ++ [p] } own := by
  refine ⟨h.files.congr (fun f => ?_), h.unread⟩
  simp only [FdSystem.held, flatMap_append, flatMap_singleton, count_append]
  omega

end FdSystem.Balanced

/-! ## §3. Descriptors. -/

theorem fileFor_some (h : s.fileFor pid fd = some (p, file)) :
    s.procs[pid]? = some p ∧ p.fileAt fd = some file := by
  obtain ⟨q, hq, hmap⟩ := bind_eq_some_iff.mp h
  obtain ⟨f, hf, heq⟩ := map_eq_some_iff.mp hmap
  cases heq
  exact ⟨(filter_eq_some_iff.mp hq).1, hf⟩

theorem fileAt_some (h : p.fileAt fd = some file) : ∃ e, p.fds[fd]? = some e ∧ e.file = some file :=
  bind_eq_some_iff.mp h

theorem mem_files_of_fileAt (h : p.fileAt fd = some file) : file ∈ p.files := by
  obtain ⟨e, he, hfile⟩ := fileAt_some h
  refine mem_append_left _ (mem_flatMap.mpr ⟨e, mem_of_getElem? he, ?_⟩)
  rw [hfile]
  exact mem_singleton_self file

/-- The lowest descriptor from `start` on that refers to nothing. -/
def FdProcess.LowestFree (p : FdProcess) (start fd : Nat) : Prop :=
  start ≤ fd ∧ p.fileAt fd = none ∧ ∀ j, start ≤ j → j < fd → p.fileAt j ≠ none

theorem firstFree_lowest (p : FdProcess) (start : Nat) :
    p.LowestFree start (firstFree p.fds start) := by
  refine ⟨Nat.le_add_right _ _, ?_, fun j hj hlt => ?_⟩
  · unfold FdProcess.fileAt firstFree
    rw [← getElem?_drop]
    cases he : (p.fds.drop start)[(p.fds.drop start).findIdx (·.file.isNone)]? with
    | none => rfl
    | some e =>
      obtain ⟨hlt, heq⟩ := List.getElem?_eq_some_iff.mp he
      have hnone : (e.file.isNone) := by
        rw [← heq]
        exact findIdx_getElem (p := fun e : FdEntry => e.file.isNone)
      exact isNone_iff_eq_none.mp hnone
  · unfold firstFree at hlt
    have hidx : j - start < (p.fds.drop start).findIdx (·.file.isNone) := by omega
    have hbefore := not_of_lt_findIdx hidx
    have hlen : j - start < (p.fds.drop start).length := Nat.lt_of_lt_of_le hidx findIdx_le_length
    have he := getElem?_eq_getElem hlen
    rw [getElem?_drop, show start + (j - start) = j by omega] at he
    unfold FdProcess.fileAt
    rw [he]
    simpa [ne_none_iff_isSome] using hbefore

theorem FdProcess.LowestFree.unique {start fd' : Nat} (h : p.LowestFree start fd)
    (h' : p.LowestFree start fd') : fd = fd' := by
  rcases Nat.lt_trichotomy fd fd' with hlt | heq | hlt
  · exact absurd h.2.1 (h'.2.2 fd h.1 hlt)
  · exact heq
  · exact absurd h'.2.1 (h.2.2 fd' h'.1 hlt)

/-- A growth adds free entries at the end. -/
theorem growFdTable_some {fds' : List FdEntry} {n : Nat} (h : growFdTable fds n room = some fds') :
    n ≤ fds'.length ∧ ∃ k, fds' = fds ++ replicate k FdEntry.empty := by
  unfold growFdTable at h
  split at h
  · exact nomatch h
  split at h
  · cases h
    exact ⟨by assumption, 0, (append_nil _).symm⟩
  split at h
  · exact nomatch h
  · cases h
    refine ⟨?_, _, rfl⟩
    rw [length_append, length_replicate]
    omega

theorem reach_some {fds' : List FdEntry} (h : FdSystem.reach fds fd room = some fds') :
    fd < fds'.length ∧ ∃ k, fds' = fds ++ replicate k FdEntry.empty := by
  unfold FdSystem.reach at h
  split at h
  · cases h
    exact ⟨by assumption, 0, (append_nil _).symm⟩
  · exact growFdTable_some h

/-- A grown table has the files that it had, and what was free still is. -/
theorem grown_free (hlt : fd < fds.length) {k : Nat}
    (hgrown : fds = p.fds ++ replicate k FdEntry.empty) (hfree : p.fileAt fd = none) :
    ({ p with fds } : FdProcess).files = p.files ∧ ∃ e, fds[fd]? = some e ∧ e.file = none := by
  subst hgrown
  refine ⟨by simp [FdProcess.files, tableFiles, FdEntry.empty], _, getElem?_eq_getElem hlt, ?_⟩
  rw [getElem_append]
  split
  · next hin =>
    unfold FdProcess.fileAt at hfree
    rwa [getElem?_eq_getElem hin] at hfree
  · rw [getElem_replicate]
    rfl

theorem withFile_balanced (h : s.Balanced own) {call : FdProcess → Nat → Option Nat × FdSystem}
    (hcall : ∀ p file, s.procs[pid]? = some p → p.fileAt fd = some file → 0 < s.held file →
      (call p file).2.Balanced own) : (s.withFile pid fd call).2.Balanced own := by
  unfold FdSystem.withFile
  cases hfor : s.fileFor pid fd with
  | none => exact h
  | some =>
    obtain ⟨hp, hfile⟩ := fileFor_some hfor
    exact hcall _ _ hp hfile (held_pos hp (mem_files_of_fileAt hfile))

theorem withProcess_balanced (h : s.Balanced own) {call : FdProcess → FdSystem}
    (hcall : ∀ p, s.procs[pid]? = some p → (call p).Balanced own) :
    (s.withProcess pid call).Balanced own := by
  unfold FdSystem.withProcess
  cases hcur : s.current pid with
  | none => exact h
  | some p => exact hcall p (filter_eq_some_iff.mp hcur).1

theorem vacate_balanced (h : s.Balanced own) (hp : s.procs[pid]? = some p)
    (hfile : p.fileAt fd = some file) : (s.vacate pid p fd file).Balanced own := by
  obtain ⟨e, he, hfile⟩ := fileAt_some hfile
  refine FdSystem.Balanced.release (h.setProc hp (fun f => ?_))
  have hset := files_setFd he FdEntry.empty f
  rw [hfile] at hset
  simp only [FdEntry.empty, toList_none, toList_some, count_nil, count_cons, count_nil] at hset ⊢
  omega

/-- A reference of the call goes to a free descriptor of a table that may have grown. -/
theorem bind_balanced (h : s.Balanced (file :: own)) (hp : s.procs[pid]? = some p)
    (hsame : p'.files = p.files) (he : p'.fds[fd]? = some e) (hfree : e.file = none) :
    (s.setProc pid (p'.setFd fd ⟨some file, false⟩)).Balanced own := by
  refine h.setProc hp (fun f => ?_)
  have hset := files_setFd he ⟨some file, false⟩ f
  rw [hfree, hsame] at hset
  simp only [toList_none, toList_some, count_nil, count_cons] at hset ⊢
  omega

theorem occupy_balanced (h : s.Balanced own) (hp : s.procs[pid]? = some p)
    (hsame : p'.files = p.files) (he : p'.fds[fd]? = some e) (hfree : e.file = none)
    (hpos : 0 < s.held file) : (s.occupy pid p' fd file).Balanced own :=
  bind_balanced (h.retain (Nat.add_pos_left hpos _)) hp hsame he hfree

theorem installFd_balanced (pid : Nat) (room : Bool) (h : s.Balanced (file :: own)) :
    (∃ fd s', s.installFd pid file room = (some fd, s') ∧ s'.Balanced own) ∨
      s.installFd pid file room = (none, s) := by
  unfold FdSystem.installFd
  cases hcur : s.current pid with
  | none => exact .inr rfl
  | some p =>
    dsimp only
    split
    · exact .inr rfl
    cases hreach : FdSystem.reach p.fds (firstFree p.fds 0) room with
    | none => exact .inr rfl
    | some =>
      obtain ⟨hlt, k, hgrown⟩ := reach_some hreach
      obtain ⟨hsame, e, he, hfree⟩ := grown_free hlt hgrown (firstFree_lowest p 0).2.1
      exact .inl ⟨_, _, rfl, bind_balanced h (filter_eq_some_iff.mp hcur).1 hsame he hfree⟩

theorem installOrRelease_balanced (h : s.Balanced (file :: own)) :
    (s.installOrRelease pid file room).2.Balanced own := by
  unfold FdSystem.installOrRelease
  rcases installFd_balanced pid room h with ⟨fd, s', heq, h'⟩ | heq <;> rw [heq]
  · exact h'
  · exact h.release

theorem closeFd_balanced (h : s.Balanced own) : (s.closeFd pid fd).2.Balanced own :=
  withFile_balanced h (fun _ _ hp hfile _ => vacate_balanced h hp hfile)

theorem sysPipe_balanced (h : s.Balanced []) (room room' copied : Bool) :
    (s.sysPipe pid room room' copied).2.Balanced [] := by
  have hmade : s.create.create.Balanced [s.files.opened, s.files.opened + 1] :=
    h.create.create.congr (fun f => (List.Perm.swap _ _ _).count_eq f)
  unfold FdSystem.sysPipe
  dsimp only
  rcases installFd_balanced pid room hmade with ⟨readFd, s', heq, h'⟩ | heq <;> rw [heq]
  · dsimp only
    rcases installFd_balanced pid room' h' with ⟨writeFd, s'', heq', h''⟩ | heq' <;> rw [heq']
    · cases copied with
      | true => exact h''
      | false => exact closeFd_balanced (closeFd_balanced h'')
    · exact (closeFd_balanced h').release
  · exact hmade.release.release

/-- `dup2` where the table reaches as far as `new`. -/
theorem rebind_balanced (h : s.Balanced own) (hp : s.procs[pid]? = some p) {old new : Nat}
    (hold : p.fileAt old = some file) (hne : old ≠ new) (hlt : new < p.fds.length) :
    (s.rebind pid p new (some file)).Balanced own := by
  have hpos : ∀ {t : FdSystem} {q : FdProcess}, t.procs[pid]? = some q →
      q.fileAt old = some file → 0 < t.held file :=
    fun hq hfile => held_pos hq (mem_files_of_fileAt hfile)
  show FdSystem.Balanced (match p.fileAt new with | none => _ | some _ => _) own
  cases hnew : p.fileAt new with
  | none =>
    have he := getElem?_eq_getElem hlt
    unfold FdProcess.fileAt at hnew
    rw [he] at hnew
    exact occupy_balanced h hp rfl he hnew (hpos hp hold)
  | some previous =>
    -- The entry of `old` keeps the file alive while that of `new` gives its file up.
    have hvacated := vacate_balanced h hp hnew
    have hpid : (s.vacate pid p new previous).procs[pid]? = some (p.setFd new FdEntry.empty) :=
      List.getElem?_set_self (List.getElem?_eq_some_iff.mp hp).1
    have hkept : (p.setFd new FdEntry.empty).fileAt old = some file := by
      unfold FdProcess.fileAt FdProcess.setFd
      rw [List.getElem?_set_ne (Ne.symm hne)]
      exact hold
    exact occupy_balanced hvacated hpid rfl (getElem?_set_self hlt) rfl (hpos hpid hkept)

theorem execFiles_moved (fds : List FdEntry) (f : Nat) :
    (tableFiles (fds.filter (·.closeOnExec))).count f + (tableFiles
        (fds.map (fun e => if e.file.isSome && e.closeOnExec then .empty else e))).count f =
      (tableFiles fds).count f := by
  induction fds with
  | nil => rfl
  | cons e fds ih =>
    obtain ⟨file, closeOnExec⟩ := e
    cases file <;> cases closeOnExec <;>
      simp [tableFiles, FdEntry.empty, count_cons] at ih ⊢ <;> omega

theorem fork_balanced (h : s.Balanced []) (cloned copied started : Bool) :
    (s.fork pid cloned copied started).Balanced [] := by
  refine withProcess_balanced h (fun p hp => ?_)
  have hheld : ∀ f ∈ p.files, 0 < s.held f := fun f hf => held_pos hp hf
  have hareas : (s.retainAll p.areas).Balanced (p.areas ++ []) :=
    h.retainAll (fun f hf => Nat.add_pos_left (hheld f (mem_append_right _ hf)) _)
  have hfds : ((s.retainAll p.areas).retainAll (tableFiles p.fds)).Balanced
      (tableFiles p.fds ++ (p.areas ++ [])) :=
    hareas.retainAll (fun f hf => Nat.add_pos_left (hheld f (mem_append_left _ hf)) _)
  split
  · exact hareas.releaseAll
  split
  · exact hfds.releaseAll.releaseAll
  · rw [← append_assoc] at hfds
    exact hfds.append

theorem exec_balanced (h : s.Balanced []) (segments : Nat) {loaded tornDown : Bool}
    (hfits : (!loaded || tornDown)) : (s.exec pid segments loaded tornDown).Balanced [] := by
  refine withProcess_balanced h (fun p hp => ?_)
  have hareas : (s.create.retainAll (replicate segments s.files.opened)).Balanced
      (replicate segments s.files.opened ++ [s.files.opened]) :=
    h.create.retainAll (fun f hf => by simp [eq_of_mem_replicate hf])
  split
  · exact hareas.releaseAll.release
  rw [if_neg (by cases loaded <;> simp_all)]
  refine FdSystem.Balanced.release (.releaseAll (.releaseAll (hareas.setProc hp (fun f => ?_))))
  have hmoved := execFiles_moved p.fds f
  simp only [FdProcess.files, FdProcess.execFiles, FdProcess.execFds, count_append]
  omega

theorem step_sound (h : s.Balanced []) {op : FdOp} (hop : s.fits op) : (s.step op).Balanced [] := by
  cases op with
  | launch room =>
    cases room with
    | false => exact h
    | true =>
      have hmade : ((s.create.retain s.files.opened).retain s.files.opened).Balanced
          [s.files.opened, s.files.opened, s.files.opened] :=
        (h.create.retain (by simp)).retain (by simp)
      exact FdSystem.Balanced.append (p := ⟨true, _, []⟩) hmade
  | openFile => exact installOrRelease_balanced h.create
  | pipe pid room room' copied => exact sysPipe_balanced h room room' copied
  | dup =>
    exact withFile_balanced h (fun p file _ _ hpos =>
      installOrRelease_balanced (h.retain (Nat.add_pos_left hpos _)))
  | dup2 pid old new =>
    have hreach : s.reaches pid old new := hop
    unfold FdSystem.reaches at hreach
    show FdSystem.Balanced (s.withFile pid old _).2 []
    unfold FdSystem.withFile
    cases hfor : s.fileFor pid old with
    | none => exact h
    | some =>
      obtain ⟨hp, hfile⟩ := fileFor_some hfor
      rw [hfor] at hreach
      simp only [Bool.or_eq_true, decide_eq_true_eq] at hreach
      dsimp only
      split
      · exact h
      split
      · exact h
      rw [if_pos (by omega)]
      exact rebind_balanced h hp hfile (by assumption) (by omega)
  | fcntlDup pid fd min room =>
    refine withFile_balanced h (fun p file hp _ hpos => ?_)
    dsimp only
    split
    · exact h
    cases hreach : FdSystem.reach p.fds (firstFree p.fds min) room with
    | none => exact h
    | some =>
      obtain ⟨hlt, k, hgrown⟩ := reach_some hreach
      obtain ⟨hsame, e, he, hfree⟩ := grown_free hlt hgrown (firstFree_lowest p min).2.1
      exact occupy_balanced h hp hsame he hfree hpos
  | fcntlSet pid fd closeOnExec =>
    refine withFile_balanced h (fun p file hp hfile _ => h.setProc hp (fun f => ?_))
    obtain ⟨e, he, hfile⟩ := fileAt_some hfile
    have hset := files_setFd he ⟨some file, closeOnExec⟩ f
    rw [hfile] at hset
    exact congrArg (· + _) (Nat.add_right_cancel hset)
  | close => exact closeFd_balanced h
  | fork pid cloned copied started => exact fork_balanced h cloned copied started
  | exec pid segments => exact exec_balanced h segments hop
  | mapFile =>
    refine withFile_balanced h (fun p file hp _ hpos => ?_)
    have hkept := h.retain (Nat.add_pos_left hpos _)
    split
    · refine hkept.setProc hp (fun f => ?_)
      simp only [FdProcess.files, count_append, count_cons, count_nil]
      omega
    · exact hkept.release
  | publishPage =>
    refine withProcess_balanced h (fun p hp => ?_)
    split
    · exact h
    next file harea =>
    have hmem := mem_append_right (tableFiles p.fds) (mem_of_getElem? harea)
    have hkept := h.retain (Nat.add_pos_left (held_pos hp hmem) _)
    refine ⟨hkept.files.congr (fun f => ?_), hkept.unread⟩
    simp only [FdSystem.held, FdSystem.retain, count_append, count_cons]
    omega
  | dropPage file =>
    show FdSystem.Balanced (if file ∈ s.pages then _ else s) []
    split
    · next hmem =>
      refine FdSystem.Balanced.release ⟨h.files.congr (fun f => ?_), h.unread⟩
      have hcount := (perm_cons_erase hmem).count_eq f
      simp only [FdSystem.held, count_append, count_cons] at hcount ⊢
      omega
    · exact h
  | exit => exact withProcess_balanced h (fun p hp => h.setProc hp (fun f => rfl))
  | reap pid =>
    show FdSystem.Balanced
      (match s.procs[pid]?.filter (!·.running) with | none => s | some p => _) []
    cases hcur : s.procs[pid]?.filter (!·.running) with
    | none => exact h
    | some =>
      refine .releaseAll (.releaseAll (h.setProc (filter_eq_some_iff.mp hcur).1 (fun f => ?_)))
      simp only [FdProcess.files, count_append]
      show 0 + _ = _
      omega

theorem run_sound (h : s.Balanced []) (ops : List FdOp) (hops : s.runFits ops) :
    (s.run ops).Balanced [] := by
  induction ops generalizing s with
  | nil => exact h
  | cons op ops ih =>
    obtain ⟨hop, hrest⟩ := Bool.and_eq_true_iff.mp hops
    exact ih (step_sound h hop) hrest

theorem empty_balanced : FdSystem.empty.Balanced [] :=
  ⟨fun b => ⟨rfl, by simp [FdSystem.empty, FdSystem.held], fun _ => rfl⟩, rfl⟩

/-! ## §4. What descriptors are handed out. -/

/-- The file that a descriptor of a process refers to. -/
def FdSystem.fileOf (s : FdSystem) (pid fd : Nat) : Option Nat :=
  s.procs[pid]?.bind (·.fileAt fd)

theorem fileOf_set (hp : s.procs[pid]? = some p) (hlt : fd < p'.fds.length) (e : FdEntry) :
    (s.setProc pid (p'.setFd fd e)).fileOf pid fd = e.file := by
  unfold FdSystem.fileOf FdSystem.setProc FdProcess.setFd
  rw [List.getElem?_set_self (List.getElem?_eq_some_iff.mp hp).1]
  show (List.set _ _ _)[fd]?.bind _ = _
  rw [List.getElem?_set_self hlt]
  rfl

theorem reach_exists (hlim : fd < MAX_FDS_SOFT_LIMIT)
    (hroom : room ∨ fd < fds.length) : ∃ fds', FdSystem.reach fds fd room = some fds' := by
  unfold FdSystem.reach growFdTable
  split
  · exact ⟨_, rfl⟩
  · have hroom := hroom.resolve_right (by assumption)
    rw [if_neg (by omega), if_neg (by omega), hroom]
    exact ⟨_, rfl⟩

theorem installFd_lowest (hcur : s.current pid = some p) (hlow : p.LowestFree 0 fd)
    (hlim : fd < MAX_FDS_SOFT_LIMIT) (hroom : room ∨ fd < p.fds.length) (file : Nat) :
    ∃ s', s.installFd pid file room = (some fd, s') ∧ s'.fileOf pid fd = some file := by
  obtain rfl := (firstFree_lowest p 0).unique hlow
  obtain ⟨fds, hreach⟩ := reach_exists hlim hroom
  refine ⟨s.setProc pid ({ p with fds }.setFd (firstFree p.fds 0) ⟨some file, false⟩), ?_, ?_⟩
  · unfold FdSystem.installFd
    rw [hcur]
    dsimp only
    rw [if_neg (by omega), hreach]
  · exact fileOf_set (filter_eq_some_iff.mp hcur).1 (reach_some hreach).1 _

theorem dup2Fd_binds {old new : Nat} (hfor : s.fileFor pid old = some (p, file))
    (hlim : new < MAX_FDS_SOFT_LIMIT) (hreach : s.reaches pid old new) (stale : Option Nat) :
    ∃ s', s.dup2Fd pid old new room stale = (some new, s') ∧ s'.fileOf pid new = some file := by
  obtain ⟨hp, hfile⟩ := fileFor_some hfor
  unfold FdSystem.reaches at hreach
  rw [hfor] at hreach
  simp only [Bool.or_eq_true, decide_eq_true_eq] at hreach
  unfold FdSystem.dup2Fd FdSystem.withFile
  rw [hfor]
  dsimp only
  rw [if_neg (by omega)]
  by_cases heq : old = new
  · refine ⟨s, if_pos heq, ?_⟩
    rw [← heq]
    unfold FdSystem.fileOf
    rw [hp]
    exact hfile
  · rw [if_neg heq, if_pos (by omega)]
    refine ⟨_, rfl, ?_⟩
    show FdSystem.fileOf (match p.fileAt new with | none => _ | some _ => _) pid new = _
    cases hnew : p.fileAt new with
    | none => exact fileOf_set (s := s.retain file) hp (by omega) _
    | some previous =>
      have hpid := List.getElem?_set_self (a := p.setFd new FdEntry.empty)
        (List.getElem?_eq_some_iff.mp hp).1
      refine fileOf_set (s := (s.vacate pid p new previous).retain file) hpid ?_ _
      show new < (p.fds.set new _).length
      rw [length_set]
      omega

end

/-- In every run in which no `dup2` grows a table and every old root is torn down, the
counts are those of the references, a file is closed once when it has none, no freed
table is read, and descriptors are handed out as they should be. -/
theorem descriptors_exact (ops : List FdOp) (hops : FdSystem.empty.runFits ops = true) :
    let s := FdSystem.empty.run ops
    (∀ f, s.files.refCount f = s.held f) ∧
    (∀ f < s.files.opened, s.files.closes f = if s.held f = 0 then 1 else 0) ∧ s.freedReads = 0 ∧
    (∀ pid p fd file room, s.current pid = some p → p.LowestFree 0 fd → fd < MAX_FDS_SOFT_LIMIT →
      (room = true ∨ fd < p.fds.length) →
      ∃ s', s.installFd pid file room = (some fd, s') ∧ s'.fileOf pid fd = some file) ∧
    (∀ pid p old file fd room, s.fileFor pid old = some (p, file) → p.LowestFree 0 fd →
      fd < MAX_FDS_SOFT_LIMIT → (room = true ∨ fd < p.fds.length) →
      ∃ s', s.dupFd pid old room = (some fd, s') ∧ s'.fileOf pid fd = some file) ∧
    (∀ pid p old new file room stale, s.fileFor pid old = some (p, file) →
      new < MAX_FDS_SOFT_LIMIT → s.reaches pid old new = true →
      ∃ s', s.dup2Fd pid old new room stale = (some new, s') ∧ s'.fileOf pid new = some file) := by
  intro s
  have h : s.Balanced [] := run_sound empty_balanced ops hops
  refine ⟨fun f => (h.files f).1, fun f hf => ?_, h.unread, ?_, ?_, ?_⟩
  · rw [(h.files f).2.1]
    simp [hf]
  · intro pid p fd file room hcur hlow hlim hroom
    exact installFd_lowest hcur hlow hlim hroom file
  · intro pid p old file fd room hfor hlow hlim hroom
    obtain ⟨q, hcur, hmap⟩ := bind_eq_some_iff.mp hfor
    obtain ⟨_, _, hpair⟩ := map_eq_some_iff.mp hmap
    cases hpair
    obtain ⟨s', heq, hfile⟩ := installFd_lowest (s := s.retain file) hcur hlow hlim hroom file
    refine ⟨s', ?_, hfile⟩
    unfold FdSystem.dupFd FdSystem.withFile FdSystem.installOrRelease
    rw [hfor]
    dsimp only
    rw [heq]
  · intro pid p old new file room stale hfor hlim hreach
    exact dup2Fd_binds hfor hlim hreach stale

/-- A process opens a file, duplicates it over its standard output, forks and exits. -/
theorem redirected_child_counted :
    let s := FdSystem.empty.run [.launch true, .openFile 0 true, .dup2 0 3 1 true none,
      .fork 0 true true true, .exit 0, .reap 0]
    s.files.refCount 1 = 2 ∧ ∀ f, s.files.refCount f = s.held f :=
  ⟨by decide, (descriptors_exact _ (by decide)).1⟩

/-- A `dup2` to a descriptor beyond the table grows it and reads the freed one: where that
has been overwritten, the call succeeds and the descriptor refers to nothing. -/
theorem dup2_grown_unbound :
    let s := FdSystem.empty.run [.launch true]
    (∃ p, s.fileFor 0 0 = some (p, 0)) ∧ (s.dup2Fd 0 0 16 true none).1 = some 16 ∧
      (s.dup2Fd 0 0 16 true none).2.fileOf 0 16 = none ∧
      (s.dup2Fd 0 0 16 true none).2.freedReads = 1 :=
  ⟨⟨_, rfl⟩, by decide, by decide, by decide⟩

end BigOS.Proc
