/-
  BigOS.Proc.UserBuffers — buffers of a process that the kernel reads and writes.

  A call first checks the areas of the buffer and then walks the page tables, page by
  page; it never resolves a fault.  The process itself, accessing the same bytes, has its
  faults resolved: pages that are not there yet are made, and pages that are shared are
  copied.  The two agree where the pages of the buffer are there, and writable for a
  write.

  Main definitions:
    • `validateUserBuffer`, `validateUserIoBuffer`, `copyCurrentUserBuffer`,
      `copyToCurrentUserBuffer` — the calls,
    • `userReads`, `userWrites` — the accesses of the process itself.
  Main results:
    • `copyFromUserRoot_spec`, `copyToUserRoot_spec` — what the copies do,
    • `userBuffers_agree_iff` — where the two views agree.
-/
import BigOS.Proc.Runs

namespace BigOS.Proc

open BigOS.Lib BigOS.Mm Function Proc.System List Bool
open BigOS.Mm.Paging (PageAttr)

variable {s : System} {root len vaddr remaining page : Nat} {space : AddressSpace}

/-! ## §1. The calls. -/

def SYS_IO_MAX_LEN : Nat := 512

/-- The loop of `runtime_range_allowed`. -/
def runtimeRangeAllowedFrom (layout : UserRuntimeLayout) (vmas : VmaCollection) (perm : UInt8)
    (stop : Nat) : Nat → Nat → Bool
  | 0, cursor => stop ≤ cursor
  | fuel + 1, cursor =>
    if stop ≤ cursor then true
    else
      match vmaAt vmas cursor with
      | none => false
      | some entry =>
        runtimeVmaAllowed layout entry && permissionsInclude entry.permissions perm &&
          cursor < entry.stop && runtimeRangeAllowedFrom layout vmas perm stop fuel
            (if entry.stop < stop then entry.stop else stop)

/-- `runtime_range_allowed`; every round gets on by a byte at least. -/
def runtimeRangeAllowed (space : AddressSpace) (addr len : Nat) (perm : UInt8) : Bool :=
  len != 0 && userRangeValid addr len &&
    match addOverflow addr len with
    | none => false
    | some stop => runtimeRangeAllowedFrom space.layout space.vmas perm stop len addr

/-- The walk of `user_range_mapped` and `user_range_writable` over the pages of a range. -/
def System.userRangeWalk (s : System) (root vaddr len : Nat) (ok : Leaf → Bool) : Bool :=
  let stop := (vaddr + len) % 2 ^ 64
  if len == 0 || USER_LOW_HALF_LIMIT ≤ vaddr || stop ≤ vaddr || USER_LOW_HALF_LIMIT < stop then
    false
  else (pagesIn (pageDown vaddr) stop).all fun page => (s.leafAt root page).any ok

def Leaf.mapped (leaf : Leaf) : Bool := leaf.attr.present && leaf.attr.user

def Leaf.writable (leaf : Leaf) : Bool :=
  leaf.attr.present && leaf.attr.user && leaf.attr.writable

/-- `user_range_mapped`. -/
def System.userRangeMapped (s : System) (root vaddr len : Nat) : Bool :=
  s.userRangeWalk root vaddr len Leaf.mapped

/-- `user_range_writable`. -/
def System.userRangeWritable (s : System) (root vaddr len : Nat) : Bool :=
  s.userRangeWalk root vaddr len Leaf.writable

/-- What is left of a page from an address on, at most the bytes that are wanted. -/
def chunkLen (vaddr remaining : Nat) : Nat :=
  if remaining < PAGE_SIZE - vaddr % PAGE_SIZE then remaining else PAGE_SIZE - vaddr % PAGE_SIZE

namespace System

/-- The loop of `copy_from_user_root`: whether it gets to the end, and the bytes that it
has copied. -/
def copyFromUserRoot (s : System) (root : Nat) : Nat → Nat → Nat → Bool × List UInt8
  | 0, _, remaining => (remaining == 0, [])
  | fuel + 1, vaddr, remaining =>
    if remaining = 0 then (true, [])
    else
      match s.leafAt root (pageDown vaddr) with
      | none => (false, [])
      | some leaf =>
        if !leaf.mapped || !s.directMapped leaf.frame then (false, [])
        else
          let chunk := chunkLen vaddr remaining
          let bytes := (range chunk).map fun i =>
            s.memory leaf.frame (vaddr % PAGE_SIZE + i)
          let rest := s.copyFromUserRoot root fuel (vaddr + chunk) (remaining - chunk)
          (rest.1, bytes ++ rest.2)

/-- The loop of `copy_to_user_root`. -/
def copyToUserRoot (root : Nat) : Nat → Nat → List UInt8 → System → Bool × System
  | 0, _, src, s => (src.isEmpty, s)
  | fuel + 1, vaddr, src, s =>
    if src.isEmpty then (true, s)
    else
      match s.leafAt root (pageDown vaddr) with
      | none => (false, s)
      | some leaf =>
        if !leaf.writable || !s.directMapped leaf.frame then (false, s)
        else
          let chunk := chunkLen vaddr src.length
          let bytes := writeBytes (s.memory leaf.frame) (vaddr % PAGE_SIZE) (src.take chunk)
          copyToUserRoot root fuel (vaddr + chunk) (src.drop chunk)
            { s with memory := update s.memory leaf.frame bytes }

/-- The process of a root may make a call on a buffer. -/
def bufferAllowed (s : System) (root addr len : Nat) (perm : UInt8) : Bool :=
  (s.spaces root).any fun space => space.running && len ≤ SYS_IO_MAX_LEN &&
    runtimeRangeAllowed space addr len perm

/-- `validate_user_buffer`. -/
def validateUserBuffer (s : System) (root addr len : Nat) : Bool :=
  s.bufferAllowed root addr len VmaPermission.Read && s.userRangeMapped root addr len

/-- `validate_user_io_buffer`. -/
def validateUserIoBuffer (s : System) (root addr len : Nat) : Bool :=
  s.bufferAllowed root addr len VmaPermission.Write && s.userRangeWritable root addr len

/-- `copy_current_user_buffer`. -/
def copyCurrentUserBuffer (s : System) (root addr len : Nat) : Bool × List UInt8 :=
  if s.bufferAllowed root addr len VmaPermission.Read then s.copyFromUserRoot root len addr len
  else (false, [])

/-- `copy_to_current_user_buffer`. -/
def copyToCurrentUserBuffer (s : System) (root addr : Nat) (src : List UInt8) : Bool × System :=
  if s.bufferAllowed root addr src.length VmaPermission.Write then
    copyToUserRoot root src.length addr src s
  else (false, s)

/-! ## §2. The process itself. -/

/-- A load that needs no fault. -/
def load (s : System) (root addr : Nat) : Option UInt8 :=
  (s.spaces root).bind fun space => (space.leaves (pageDown addr)).bind fun leaf =>
    if space.running && leaf.mapped then some (s.memory leaf.frame (addr % PAGE_SIZE)) else none

/-- A store that needs no fault. -/
def canStore (s : System) (root addr : Nat) : Bool :=
  (s.spaces root).any fun space => (space.leaves (pageDown addr)).any fun leaf =>
    space.running && leaf.writable

end System

/-- The error code of a user fault: a write or a read, of a page that is there or not. -/
def userFaultCode (write present : Bool) : Nat :=
  4 + (if write then 2 else 0) + if present then 1 else 0

/-- A load of the process, with its fault resolved if there is one. -/
def System.userLoad (s : System) (root addr : Nat) (env : Nat → FaultEnv) :
    Option (UInt8 × System) :=
  match s.load root addr with
  | some byte => some (byte, s)
  | none =>
    let present := (s.leafAt root (pageDown addr)).isSome
    match s.tryHandleUserPageFault root addr (userFaultCode false present) (env addr) with
    | (false, _) => none
    | (true, s) => (s.load root addr).map fun byte => (byte, s)

/-- The loads of a buffer, one after the other. -/
def System.userReads (root : Nat) (env : Nat → FaultEnv) : Nat → Nat → System → Option (List UInt8)
  | _, 0, _ => some []
  | addr, len + 1, s =>
    match s.userLoad root addr env with
    | none => none
    | some (byte, s) => (userReads root env (addr + 1) len s).map (byte :: ·)

/-- A store of the process, with its fault resolved if there is one. -/
def System.userStore (s : System) (root addr : Nat) (byte : UInt8) (env : Nat → FaultEnv) :
    Option System :=
  if s.canStore root addr then some (s.store root addr byte)
  else
    let present := (s.leafAt root (pageDown addr)).isSome
    match s.tryHandleUserPageFault root addr (userFaultCode true present) (env addr) with
    | (false, _) => none
    | (true, s) => if s.canStore root addr then some (s.store root addr byte) else none

/-- The stores of a buffer, one after the other. -/
def System.userWrites (root : Nat) (env : Nat → FaultEnv) :
    Nat → List UInt8 → System → Option System
  | _, [], s => some s
  | addr, byte :: rest, s =>
    match s.userStore root addr byte env with
    | none => none
    | some s => userWrites root env (addr + 1) rest s

/-- Stores that need no fault, one after the other. -/
def System.storeBytes (root : Nat) : Nat → List UInt8 → System → System
  | _, [], s => s
  | addr, byte :: rest, s => storeBytes root (addr + 1) rest (s.store root addr byte)

/-! ## §3. Pages and bytes of a buffer. -/

theorem pageDown_add (vaddr i : Nat) (h : vaddr % PAGE_SIZE + i < PAGE_SIZE) :
    pageDown (vaddr + i) = pageDown vaddr ∧ (vaddr + i) % PAGE_SIZE = vaddr % PAGE_SIZE + i := by
  have hsize : PAGE_SIZE = 4096 := rfl
  unfold pageDown
  rw [hsize] at h ⊢
  omega

theorem chunkLen_bounds (vaddr : Nat) (h : 0 < remaining) :
    0 < chunkLen vaddr remaining ∧ chunkLen vaddr remaining ≤ remaining ∧
      vaddr % PAGE_SIZE + chunkLen vaddr remaining ≤ PAGE_SIZE := by
  have hlt : vaddr % PAGE_SIZE < PAGE_SIZE := Nat.mod_lt _ (by decide)
  unfold chunkLen
  split <;> omega

/-- The pages that a walk visits are those of the bytes of the range. -/
theorem mem_walkPages {stop : Nat} : page ∈ pagesIn (pageDown vaddr) stop ↔
      page = pageDown vaddr ∧ pageDown vaddr < stop ∨
        ∃ a, vaddr ≤ a ∧ a < stop ∧ page = pageDown a := by
  have hsize : PAGE_SIZE = 4096 := rfl
  rw [mem_pagesIn (pageAligned_pageDown vaddr)]
  unfold pageAligned pageDown
  rw [beq_iff_eq, hsize]
  constructor
  · intro h
    by_cases hfirst : page = vaddr / 4096 * 4096
    · exact .inl ⟨hfirst, by omega⟩
    · exact .inr ⟨page, by omega, h.2.1, by omega⟩
  · intro h
    rcases h with h | ⟨a, hlow, hhigh, hpage⟩ <;> omega

theorem userRangeWalk_iff {ok : Leaf → Bool} (hlen : 0 < len)
    (hlimit : vaddr + len ≤ USER_LOW_HALF_LIMIT) : s.userRangeWalk root vaddr len ok ↔
      ∀ i < len, (s.leafAt root (pageDown (vaddr + i))).any ok := by
  have hbig : USER_LOW_HALF_LIMIT < 2 ^ 64 := by decide
  have hstop : (vaddr + len) % 2 ^ 64 = vaddr + len := Nat.mod_eq_of_lt (by omega)
  unfold userRangeWalk
  rw [hstop, if_neg (by simp; omega), all_eq_true]
  constructor
  · intro h i hi
    exact h _ (mem_walkPages.mpr (.inr ⟨vaddr + i, by omega, by omega, rfl⟩))
  · intro h page hpage
    rcases mem_walkPages.mp hpage with ⟨rfl, _⟩ | ⟨a, hlow, hhigh, rfl⟩
    · exact h 0 hlen
    · have hat := h (a - vaddr) (by omega)
      rwa [show vaddr + (a - vaddr) = a by omega] at hat

/-- What a copy asks of every page is more than a walk asks for. -/
theorem userRangeWalk_of_all {ok reachable : Leaf → Bool} (hlen : 0 < len)
    (hlimit : vaddr + len ≤ USER_LOW_HALF_LIMIT)
    (h : ∀ i < len, (s.leafAt root (pageDown (vaddr + i))).any
      (fun leaf => ok leaf && reachable leaf)) : s.userRangeWalk root vaddr len ok := by
  refine (userRangeWalk_iff hlen hlimit).mpr (fun i hi => ?_)
  have hat := h i hi
  rw [Option.any_eq_true] at hat ⊢
  obtain ⟨leaf, hleaf, hok⟩ := hat
  exact ⟨leaf, hleaf, (and_eq_true_iff.mp hok).1⟩

/-! ## §4. Reading. -/

/-- What the page tables have at an address. -/
def System.byteAt (s : System) (root addr : Nat) : Option UInt8 :=
  (s.leafAt root (pageDown addr)).bind fun leaf =>
    if leaf.mapped then some (s.memory leaf.frame (addr % PAGE_SIZE)) else none

/-- The kernel can read a byte. -/
def System.readReady (s : System) (root addr : Nat) : Bool :=
  (s.leafAt root (pageDown addr)).any fun leaf => leaf.mapped && s.directMapped leaf.frame

/-- A condition on the leaves of a range, by the leaf of its first page and the rest. -/
theorem forall_leaf_chunk (s : System) (root vaddr : Nat) (ok : Leaf → Bool) (h : 0 < remaining) :
    (∀ i < remaining, (s.leafAt root (pageDown (vaddr + i))).any ok) ↔
      (s.leafAt root (pageDown vaddr)).any ok ∧ ∀ i < remaining - chunkLen vaddr remaining,
          (s.leafAt root (pageDown (vaddr + chunkLen vaddr remaining + i))).any ok := by
  have hchunk := chunkLen_bounds vaddr h
  generalize chunkLen vaddr remaining = chunk at hchunk ⊢
  constructor
  · intro hall
    refine ⟨hall 0 h, fun i hi => ?_⟩
    rw [Nat.add_assoc]
    exact hall (chunk + i) (by omega)
  · intro hboth i hi
    by_cases hin : i < chunk
    · rw [(pageDown_add vaddr i (by omega)).1]
      exact hboth.1
    · have hrest := hboth.2 (i - chunk) (by omega)
      rwa [show vaddr + chunk + (i - chunk) = vaddr + i by omega] at hrest

/-- The copy gets to the end exactly when every byte can be read, and what it has copied
are the bytes at the addresses of the buffer, from the first on. -/
theorem copyFromUserRoot_spec (s : System) (root fuel : Nat) : ∀ vaddr remaining, remaining ≤ fuel →
      ((s.copyFromUserRoot root fuel vaddr remaining).1 ↔
        ∀ i < remaining, s.readReady root (vaddr + i)) ∧
      ((s.copyFromUserRoot root fuel vaddr remaining).1 →
        (s.copyFromUserRoot root fuel vaddr remaining).2.length = remaining) ∧
      ∀ i byte, (s.copyFromUserRoot root fuel vaddr remaining).2[i]? = some byte →
        s.byteAt root (vaddr + i) = some byte := by
  induction fuel with
  | zero =>
    intro vaddr remaining hle
    have hzero : remaining = 0 := by omega
    subst hzero
    exact ⟨⟨fun _ i hi => absurd hi (by omega), fun _ => rfl⟩, fun _ => rfl, fun i byte => nofun⟩
  | succ fuel ih =>
    intro vaddr remaining hle
    unfold copyFromUserRoot
    by_cases hzero : remaining = 0
    · subst hzero
      exact ⟨⟨fun _ i hi => absurd hi (by omega), fun _ => rfl⟩, fun _ => rfl, fun i byte => nofun⟩
    have hpos := Nat.pos_of_ne_zero hzero
    have hchunk := chunkLen_bounds vaddr hpos
    unfold readReady at ih ⊢
    rw [if_neg hzero, forall_leaf_chunk s root vaddr _ hpos]
    generalize chunkLen vaddr remaining = chunk at hchunk
    cases hleaf : s.leafAt root (pageDown vaddr) with
    | none => exact ⟨⟨nofun, fun hall => nomatch hall.1⟩, nofun, fun i byte => nofun⟩
    | some leaf =>
      simp only [Option.any_some, ← Bool.not_and]
      cases hok : leaf.mapped && s.directMapped leaf.frame with
      | false => exact ⟨⟨nofun, fun hall => nomatch hall.1⟩, nofun, fun i byte => nofun⟩
      | true =>
        have hrest := ih (vaddr + chunk) (remaining - chunk) (by omega)
        generalize s.copyFromUserRoot root fuel (vaddr + chunk) (remaining - chunk) = rest at hrest
        refine ⟨hrest.1.trans ⟨fun h => ⟨rfl, h⟩, fun h => h.2⟩, fun hdone => ?_,
          fun i byte hbyte => ?_⟩
        · have hlen := hrest.2.1 hdone
          simp only [Bool.not_true, Bool.false_eq_true, if_false, length_append, length_map,
            length_range]
          omega
        · simp only [Bool.not_true, Bool.false_eq_true, if_false] at hbyte
          by_cases hin : i < chunk
          · rw [getElem?_append_left (by simpa using hin)] at hbyte
            rw [getElem?_map, getElem?_range hin] at hbyte
            cases hbyte
            -- The first chunk lies in one page.
            have hpage := pageDown_add vaddr i (by omega)
            simp [byteAt, hpage.1, hleaf, if_pos (and_eq_true_iff.mp hok).1, hpage.2]
          · rw [getElem?_append_right (by simpa using hin)] at hbyte
            have hat := hrest.2.2 _ byte hbyte
            simp only [length_map, length_range] at hat
            rwa [show vaddr + chunk + (i - chunk) = vaddr + i by omega] at hat

theorem load_eq_byteAt (hspace : s.spaces root = some space) (hrun : space.running)
    (addr : Nat) : s.load root addr = s.byteAt root addr := by
  unfold load byteAt leafAt
  rw [hspace, Option.bind_some, Option.bind_some, hrun]
  rfl

/-- Where no load needs a fault, the process reads the bytes that are there. -/
theorem userReads_of_loads (env : Nat → FaultEnv) (bytes : List UInt8) :
    ∀ addr, (∀ i byte, bytes[i]? = some byte → s.load root (addr + i) = some byte) →
      userReads root env addr bytes.length s = some bytes := by
  induction bytes with
  | nil => exact fun addr _ => rfl
  | cons byte rest ih =>
    intro addr hloads
    have hfirst : s.load root addr = some byte := hloads 0 byte rfl
    have hrest := ih (addr + 1) (fun i b hb => by
      have hat := hloads (i + 1) b (by simpa using hb)
      rwa [show addr + (i + 1) = addr + 1 + i by omega] at hat)
    show (match s.userLoad root addr env with
      | none => none
      | some (byte, s) => (userReads root env (addr + 1) rest.length s).map (byte :: ·)) =
        some (byte :: rest)
    have hload : s.userLoad root addr env = some (byte, s) := by
      unfold userLoad
      rw [hfirst]
    rw [hload]
    dsimp only
    rw [hrest]
    rfl

/-! ## §5. Writing. -/

/-- The kernel can write a byte. -/
def System.writeReady (s : System) (root addr : Nat) : Bool :=
  (s.leafAt root (pageDown addr)).any fun leaf => leaf.writable && s.directMapped leaf.frame

theorem storeBytes_append (root : Nat) (xs ys : List UInt8) :
    ∀ addr s, storeBytes root addr (xs ++ ys) s =
      storeBytes root (addr + xs.length) ys (storeBytes root addr xs s) := by
  induction xs with
  | nil => exact fun addr s => rfl
  | cons x xs ih =>
    intro addr s
    show storeBytes root (addr + 1) (xs ++ ys) _ = _
    rw [ih, length_cons, show addr + 1 + xs.length = addr + (xs.length + 1) by omega]
    rfl

theorem writeBytes_nil (page : Nat → UInt8) (start : Nat) : writeBytes page start [] = page := by
  funext i
  unfold writeBytes
  split <;> rfl

theorem writeBytes_cons (page : Nat → UInt8) (start : Nat) (byte : UInt8) (rest : List UInt8) :
    writeBytes page start (byte :: rest) =
      writeBytes (update page start byte) (start + 1) rest := by
  funext i
  unfold writeBytes
  rcases Nat.lt_trichotomy i start with hlt | heq | hgt
  · rw [if_neg (by omega), if_neg (by omega), update_of_ne (by omega)]
  · rw [if_pos (by omega), if_neg (by omega), heq, update_self, Nat.sub_self]
    rfl
  · rw [if_pos (by omega), if_pos (by omega), update_of_ne (by omega),
      show i - start = (i - (start + 1)) + 1 by omega, getElem?_cons_succ]

/-- Stores into one page that can be written. -/
theorem storeBytes_page {leaf : Leaf} (hpage : pageAligned page)
    (hrun : space.running) (hleaf : space.leaves page = some leaf)
    (hwrite : leaf.writable) (data : List UInt8) :
    ∀ start s, s.spaces root = some space → start + data.length ≤ PAGE_SIZE →
      storeBytes root (page + start) data s = { s with
        memory := update s.memory leaf.frame
          (writeBytes (s.memory leaf.frame) start data) } := by
  induction data with
  | nil =>
    intro start s _ _
    rw [writeBytes_nil, update_eq_self]
    rfl
  | cons byte rest ih =>
    intro start s hspace hfit
    rw [length_cons] at hfit
    have hsize : PAGE_SIZE = 4096 := rfl
    have hat : pageDown (page + start) = page ∧ (page + start) % PAGE_SIZE = start := by
      unfold pageAligned at hpage
      unfold pageDown
      rw [beq_iff_eq, hsize] at hpage
      rw [hsize] at hfit ⊢
      omega
    have hstore : s.store root (page + start) byte = { s with
        memory := update s.memory leaf.frame
          (update (s.memory leaf.frame) start byte) } := by
      unfold Leaf.writable at hwrite
      unfold store
      rw [hspace]
      dsimp only
      rw [hat.1, hleaf]
      dsimp only
      rw [if_pos (by simp [hrun, hwrite]), hat.2]
    show storeBytes root (page + start + 1) rest (s.store root (page + start) byte) = _
    have hspace' : (s.store root (page + start) byte).spaces root = some space := by
      rw [hstore]
      exact hspace
    rw [show page + start + 1 = page + (start + 1) by omega, ih (start + 1) _ hspace' (by omega),
      hstore, writeBytes_cons]
    simp

/-- The copy gets to the end exactly when every byte can be written; what it has written
are the first bytes of the source, as the process would have stored them. -/
theorem copyToUserRoot_spec (hrun : space.running) (fuel : Nat) :
    ∀ vaddr src s, s.spaces root = some space → src.length ≤ fuel →
      ((copyToUserRoot root fuel vaddr src s).1 ↔ ∀ i < src.length, s.writeReady root (vaddr + i)) ∧
      ∃ k ≤ src.length, ((copyToUserRoot root fuel vaddr src s).1 → k = src.length) ∧
        (copyToUserRoot root fuel vaddr src s).2 = storeBytes root vaddr (src.take k) s := by
  induction fuel with
  | zero =>
    intro vaddr src s _ hle
    have hnil : src = [] := length_eq_zero_iff.mp (by omega)
    subst hnil
    exact ⟨⟨fun _ i hi => absurd hi (by simp), fun _ => rfl⟩, 0, Nat.le_refl _, fun _ => rfl, rfl⟩
  | succ fuel ih =>
    intro vaddr src s hspace hle
    unfold copyToUserRoot
    by_cases hnil : src = []
    · subst hnil
      exact ⟨⟨fun _ i hi => absurd hi (by simp), fun _ => rfl⟩, 0, Nat.le_refl _, fun _ => rfl, rfl⟩
    have hpos : 0 < src.length := length_pos_iff.mpr hnil
    have hchunk := chunkLen_bounds vaddr hpos
    unfold writeReady at ih ⊢
    rw [if_neg (by simpa using hnil), forall_leaf_chunk s root vaddr _ hpos]
    generalize chunkLen vaddr src.length = chunk at hchunk
    cases hleaf : s.leafAt root (pageDown vaddr) with
    | none => exact ⟨⟨nofun, fun hall => nomatch hall.1⟩, 0, Nat.zero_le _, nofun, rfl⟩
    | some leaf =>
      simp only [Option.any_some, ← Bool.not_and]
      cases hok : leaf.writable && s.directMapped leaf.frame with
      | false => exact ⟨⟨nofun, fun hall => nomatch hall.1⟩, 0, Nat.zero_le _, nofun, rfl⟩
      | true =>
        have htake : (src.take chunk).length = chunk := by
          rw [length_take]
          omega
        have hdrop : (src.drop chunk).length = src.length - chunk := length_drop
        have hstored := storeBytes_page (pageAligned_pageDown vaddr) hrun
          ((leafAt_eq hspace _).symm.trans hleaf) (and_eq_true_iff.mp hok).1
          (src.take chunk) (vaddr % PAGE_SIZE) s hspace (by omega)
        have hdiv : pageDown vaddr + vaddr % PAGE_SIZE = vaddr := Nat.div_add_mod' ..
        rw [hdiv] at hstored
        obtain ⟨hdone, k, hk, hall, hstate⟩ := ih (vaddr + chunk) (src.drop chunk)
          { s with memory := update s.memory leaf.frame (writeBytes (s.memory leaf.frame)
            (vaddr % PAGE_SIZE) (src.take chunk)) } hspace (by omega)
        rw [hdrop] at hdone hk hall
        refine ⟨hdone.trans ⟨fun h => ⟨rfl, h⟩, fun h => h.2⟩, chunk + k, by omega,
          fun hd => ?_, ?_⟩
        · have hk' := hall hd
          omega
        · rw [take_add, storeBytes_append, htake, hstored]
          exact hstate

theorem store_spaces (s : System) (root addr : Nat) (byte : UInt8) :
    (s.store root addr byte).spaces = s.spaces := by
  unfold store
  split
  · rfl
  · split
    · rfl
    · dsimp only
      split <;> rfl

/-- Where no store needs a fault, the process stores the bytes. -/
theorem userWrites_of_stores (env : Nat → FaultEnv) (src : List UInt8) :
    ∀ addr s, (∀ i < src.length, s.canStore root (addr + i)) →
      userWrites root env addr src s = some (storeBytes root addr src s) := by
  induction src with
  | nil => exact fun addr s _ => rfl
  | cons byte rest ih =>
    intro addr s hall
    have hfirst : s.canStore root addr := hall 0 (by simp)
    have hstore : s.userStore root addr byte env = some (s.store root addr byte) := by
      unfold userStore
      rw [if_pos hfirst]
    show (match s.userStore root addr byte env with
      | none => none
      | some s => userWrites root env (addr + 1) rest s) = _
    rw [hstore]
    refine ih (addr + 1) _ (fun i hi => ?_)
    have hat := hall (i + 1) (by simpa using hi)
    unfold canStore at hat ⊢
    rw [store_spaces]
    rwa [show addr + (i + 1) = addr + 1 + i by omega] at hat

/-! ## §6. Where the views agree. -/

/-- The kernel reads what the process reads, and fails where the process does; what it has
copied then are bytes of the buffer. -/
structure ReadAgrees (s : System) (root addr len : Nat) (env : Nat → FaultEnv) : Prop where
  reads : ∀ bytes, userReads root env addr len s = some bytes → s.validateUserBuffer root addr len ∧
      s.copyCurrentUserBuffer root addr len = (true, bytes)
  fails : userReads root env addr len s = none → s.validateUserBuffer root addr len = false ∧
      (s.copyCurrentUserBuffer root addr len).1 = false
  inside : ∀ i byte, (s.copyCurrentUserBuffer root addr len).2[i]? = some byte →
    s.load root (addr + i) = some byte

/-- The kernel writes what the process writes, and fails where the process does; what it
has written then are bytes of the buffer. -/
structure WriteAgrees (s : System) (root addr : Nat) (src : List UInt8) (env : Nat → FaultEnv) :
    Prop where
  writes : ∀ t, userWrites root env addr src s = some t →
    s.validateUserIoBuffer root addr src.length ∧
      s.copyToCurrentUserBuffer root addr src = (true, t)
  fails : userWrites root env addr src s = none →
    s.validateUserIoBuffer root addr src.length = false ∧
      (s.copyToCurrentUserBuffer root addr src).1 = false
  inside : ∃ k ≤ src.length, (s.copyToCurrentUserBuffer root addr src).2 =
    storeBytes root addr (src.take k) s

/-- The areas permit the reads, and the pages are there. -/
def System.ReadReady (s : System) (root addr len : Nat) : Prop :=
  s.bufferAllowed root addr len VmaPermission.Read ∧ ∀ i < len, s.readReady root (addr + i)

/-- The areas permit the writes, and the pages are there and can be written. -/
def System.WriteReady (s : System) (root addr len : Nat) : Prop :=
  s.bufferAllowed root addr len VmaPermission.Write ∧ ∀ i < len, s.writeReady root (addr + i)

theorem bufferAllowed_some {addr : Nat} {perm : UInt8} (h : s.bufferAllowed root addr len perm) :
    ∃ space, s.spaces root = some space ∧ space.running ∧ 0 < len ∧
      addr + len ≤ USER_LOW_HALF_LIMIT := by
  unfold bufferAllowed runtimeRangeAllowed userRangeValid addOverflow at h
  rw [Option.any_eq_true] at h
  obtain ⟨space, hspace, hcond⟩ := h
  by_cases hover : addr + len < 2 ^ 64
  · simp only [if_pos hover, and_eq_true, bne_iff_ne, ne_eq, decide_eq_true_eq] at hcond
    exact ⟨space, hspace, hcond.1.1, by omega, hcond.2.1.2.2⟩
  · simp only [if_neg hover, Bool.and_false] at hcond
    cases hcond

section Agree

variable {addr : Nat} {src : List UInt8}

/-- A buffer that the kernel validates is one that the process reads. -/
theorem validateUserBuffer_reads (env : Nat → FaultEnv) (h : s.validateUserBuffer root addr len) :
    ∃ bytes, userReads root env addr len s = some bytes := by
  unfold validateUserBuffer at h
  rw [and_eq_true] at h
  obtain ⟨space, hspace, hrun, hpos, hlimit⟩ := bufferAllowed_some h.1
  have hmapped := (userRangeWalk_iff hpos hlimit).mp h.2
  have hsome : ∀ i < len, (s.load root (addr + i)).isSome := by
    intro i hi
    have hat := hmapped i hi
    rw [Option.any_eq_true] at hat
    obtain ⟨leaf, hleaf, hleafOk⟩ := hat
    rw [load_eq_byteAt hspace hrun]
    simp [byteAt, hleaf, hleafOk]
  have hloads : ∀ i byte, ((range len).map fun i => (s.load root (addr + i)).getD 0)[i]? =
      some byte → s.load root (addr + i) = some byte := by
    intro i byte hbyte
    rw [getElem?_map, Option.map_eq_some_iff] at hbyte
    obtain ⟨j, hj, rfl⟩ := hbyte
    obtain ⟨hlt, rfl⟩ := List.getElem?_eq_some_iff.mp hj
    obtain ⟨b, hb⟩ := Option.isSome_iff_exists.mp (hsome i (by simpa using hlt))
    rw [getElem_range, hb]
    rfl
  have hreads := userReads_of_loads env _ addr hloads
  rw [length_map, length_range] at hreads
  exact ⟨_, hreads⟩

/-- What the kernel has copied, the process loads. -/
theorem copyCurrentUserBuffer_loads (s : System) (root addr len i : Nat) (byte : UInt8)
    (h : (s.copyCurrentUserBuffer root addr len).2[i]? = some byte) :
    s.load root (addr + i) = some byte := by
  unfold copyCurrentUserBuffer at h
  by_cases hallowed : s.bufferAllowed root addr len VmaPermission.Read
  · rw [if_pos hallowed] at h
    obtain ⟨space, hspace, hrun, _⟩ := bufferAllowed_some hallowed
    rw [load_eq_byteAt hspace hrun]
    exact (copyFromUserRoot_spec s root len addr len (Nat.le_refl _)).2.2 i byte h
  · rw [if_neg hallowed] at h
    cases h

theorem copyCurrentUserBuffer_iff :
    (s.copyCurrentUserBuffer root addr len).1 ↔ s.ReadReady root addr len := by
  unfold copyCurrentUserBuffer ReadReady
  by_cases hallowed : s.bufferAllowed root addr len VmaPermission.Read
  · rw [if_pos hallowed, (copyFromUserRoot_spec s root len addr len (Nat.le_refl _)).1]
    exact ⟨fun h => ⟨hallowed, h⟩, fun h => h.2⟩
  · rw [if_neg hallowed]
    exact ⟨nofun, fun h => absurd h.1 hallowed⟩

/-- A buffer that the kernel copies is one that it validates, and that the process reads
with the same bytes. -/
theorem ReadReady.reads (env : Nat → FaultEnv) (h : s.ReadReady root addr len) :
    s.validateUserBuffer root addr len ∧
      ∃ bytes, s.copyCurrentUserBuffer root addr len = (true, bytes) ∧
        userReads root env addr len s = some bytes := by
  obtain ⟨space, hspace, hrun, hpos, hlimit⟩ := bufferAllowed_some h.1
  have hdone := copyCurrentUserBuffer_iff.mpr h
  have hlen : (s.copyCurrentUserBuffer root addr len).2.length = len := by
    unfold copyCurrentUserBuffer at hdone ⊢
    rw [if_pos h.1] at hdone ⊢
    exact (copyFromUserRoot_spec s root len addr len (Nat.le_refl _)).2.1 hdone
  have hreads := userReads_of_loads env _ addr (copyCurrentUserBuffer_loads s root addr len)
  rw [hlen] at hreads
  have hmapped : s.userRangeMapped root addr len := userRangeWalk_of_all hpos hlimit h.2
  refine ⟨?_, _, Prod.ext hdone rfl, hreads⟩
  unfold validateUserBuffer
  rw [h.1, hmapped]
  rfl

/-- The kernel's check and its copy give what the process gets exactly if the process gets
nothing, or the copy gets to the end. -/
theorem views_agree_iff {α : Type} {user : Option α} {valid : Bool} {copy : Bool × α} {ready : Prop}
    (hvalid : valid → ∃ x, user = some x) (hcopied : copy.1 ↔ ready)
    (hready : ready → valid ∧ ∃ x, copy = (true, x) ∧ user = some x) :
    (∀ x, user = some x → valid ∧ copy = (true, x)) ∧
        (user = none → valid = false ∧ copy.1 = false) ↔ user = none ∨ ready := by
  constructor
  · intro h
    cases huser : user with
    | none => exact .inl rfl
    | some x => exact .inr (hcopied.mp (congrArg Prod.fst (h.1 x huser).2))
  · intro h
    constructor
    · rintro x rfl
      obtain ⟨hv, y, hcopy, hy⟩ := hready (h.resolve_left nofun)
      cases hy
      exact ⟨hv, hcopy⟩
    · rintro rfl
      constructor
      · exact eq_false_iff.mpr fun hv => nomatch hvalid hv
      · refine eq_false_iff.mpr fun hc => ?_
        obtain ⟨_, x, _, hx⟩ := hready (hcopied.mp hc)
        cases hx

theorem readAgrees_iff (env : Nat → FaultEnv) : ReadAgrees s root addr len env ↔
      userReads root env addr len s = none ∨ s.ReadReady root addr len := by
  rw [← views_agree_iff (validateUserBuffer_reads env) copyCurrentUserBuffer_iff
    (ReadReady.reads env)]
  exact ⟨fun h => ⟨h.reads, h.fails⟩,
    fun h => ⟨h.1, h.2, copyCurrentUserBuffer_loads s root addr len⟩⟩

/-- The kernel can write where the process stores without a fault. -/
theorem canStore_iff (hspace : s.spaces root = some space) (hrun : space.running) (a : Nat) :
    s.canStore root a = (s.leafAt root (pageDown a)).any Leaf.writable := by
  unfold canStore leafAt
  rw [hspace, Option.bind_some, Option.any_some, hrun]
  rfl

theorem validateUserIoBuffer_writes (env : Nat → FaultEnv)
    (h : s.validateUserIoBuffer root addr src.length) :
    userWrites root env addr src s = some (storeBytes root addr src s) := by
  unfold validateUserIoBuffer at h
  rw [and_eq_true] at h
  obtain ⟨space, hspace, hrun, hpos, hlimit⟩ := bufferAllowed_some h.1
  have hmapped := (userRangeWalk_iff hpos hlimit).mp h.2
  refine userWrites_of_stores env src addr s (fun i hi => ?_)
  rw [canStore_iff hspace hrun]
  exact hmapped i hi

/-- What the kernel has written when it stops. -/
theorem copyToCurrentUserBuffer_spec (s : System) (root addr : Nat) (src : List UInt8) :
    ((s.copyToCurrentUserBuffer root addr src).1 ↔ s.WriteReady root addr src.length) ∧
    ∃ k ≤ src.length, ((s.copyToCurrentUserBuffer root addr src).1 → k = src.length) ∧
      (s.copyToCurrentUserBuffer root addr src).2 = storeBytes root addr (src.take k) s := by
  unfold copyToCurrentUserBuffer WriteReady
  by_cases hallowed : s.bufferAllowed root addr src.length VmaPermission.Write
  · rw [if_pos hallowed]
    obtain ⟨space, hspace, hrun, _⟩ := bufferAllowed_some hallowed
    have hspec := copyToUserRoot_spec hrun src.length addr src s hspace (Nat.le_refl _)
    exact ⟨hspec.1.trans ⟨fun h => ⟨hallowed, h⟩, fun h => h.2⟩, hspec.2⟩
  · rw [if_neg hallowed]
    exact ⟨⟨nofun, fun h => absurd h.1 hallowed⟩, 0, Nat.zero_le _, nofun, rfl⟩

/-- A buffer that the kernel copies to is one that it validates, and that the process
writes to the same effect. -/
theorem WriteReady.writes (env : Nat → FaultEnv) (h : s.WriteReady root addr src.length) :
    s.validateUserIoBuffer root addr src.length ∧
      ∃ t, s.copyToCurrentUserBuffer root addr src = (true, t) ∧
        userWrites root env addr src s = some t := by
  obtain ⟨space, hspace, hrun, hpos, hlimit⟩ := bufferAllowed_some h.1
  have hwritable : s.userRangeWritable root addr src.length := userRangeWalk_of_all hpos hlimit h.2
  have hvalid : s.validateUserIoBuffer root addr src.length := by
    unfold validateUserIoBuffer
    rw [h.1, hwritable]
    rfl
  obtain ⟨hiff, k, _, hall, hstate⟩ := copyToCurrentUserBuffer_spec s root addr src
  have hdone := hiff.mpr h
  rw [hall hdone, take_length] at hstate
  exact ⟨hvalid, _, Prod.ext hdone hstate, validateUserIoBuffer_writes env hvalid⟩

theorem writeAgrees_iff (src : List UInt8) (env : Nat → FaultEnv) :
    WriteAgrees s root addr src env ↔
      userWrites root env addr src s = none ∨ s.WriteReady root addr src.length := by
  obtain ⟨hcopied, k, hk, _, hstate⟩ := copyToCurrentUserBuffer_spec s root addr src
  rw [← views_agree_iff (fun hvalid => ⟨_, validateUserIoBuffer_writes env hvalid⟩) hcopied
    (WriteReady.writes env)]
  exact ⟨fun h => ⟨h.writes, h.fails⟩, fun h => ⟨h.1, h.2, k, hk, hstate⟩⟩

end Agree

/-- For every state and every buffer that a call takes, the kernel and the process agree
exactly when the process cannot access the buffer itself, or the areas permit the access
and the pages are there, and writable for a write. -/
theorem userBuffers_agree_iff (s : System) (root addr : Nat) (env : Nat → FaultEnv) :
    (∀ len, 0 < len → len ≤ SYS_IO_MAX_LEN → (ReadAgrees s root addr len env ↔
      userReads root env addr len s = none ∨ s.ReadReady root addr len)) ∧
    ∀ src : List UInt8, 0 < src.length → src.length ≤ SYS_IO_MAX_LEN →
      (WriteAgrees s root addr src env ↔
        userWrites root env addr src s = none ∨ s.WriteReady root addr src.length) :=
  ⟨fun _ _ _ => readAgrees_iff env, fun src _ _ => writeAgrees_iff src env⟩

/-- A page that is there. -/
theorem userBuffers_agree_smallRun :
    ReadAgrees (emptySystem.runOps smallRun) 1 0x1000010 3 (fun _ => smallFault 0x2000000) ∧
    WriteAgrees (emptySystem.runOps smallRun) 1 0x1000010 [1, 2, 3]
      (fun _ => smallFault 0x2000000) := by
  have hagree := userBuffers_agree_iff (emptySystem.runOps smallRun) 1 0x1000010
    (fun _ => smallFault 0x2000000)
  constructor
  · exact (hagree.1 3 (by decide) (by decide)).mpr (.inr ⟨by decide +kernel, by decide +kernel⟩)
  · exact (hagree.2 [1, 2, 3] (by decide) (by decide)).mpr
      (.inr ⟨by decide +kernel, by decide +kernel⟩)

/-- The process reads a page of a mapping that it has not touched yet, and writes a page
that a fork has shared; the kernel refuses both. -/
theorem userBuffers_not_agree : (userReads 1 (fun _ => smallFault 0x2000000) 0x1000000 1
        (emptySystem.runOps mappedRun) = some [0] ∧
      (emptySystem.runOps mappedRun).validateUserBuffer 1 0x1000000 1 = false ∧
      (emptySystem.runOps mappedRun).copyCurrentUserBuffer 1 0x1000000 1 = (false, [])) ∧
    (userWrites 1 (fun _ => smallFault 0x2000000) 0x1000000 [7]
        (emptySystem.runOps (smallRun ++ [.fork 1 2 smallFork]))).isSome = true ∧
      (emptySystem.runOps (smallRun ++ [.fork 1 2 smallFork])).validateUserIoBuffer 1 0x1000000 1 =
        false ∧ ((emptySystem.runOps (smallRun ++ [.fork 1 2 smallFork])).copyToCurrentUserBuffer 1
        0x1000000 [7]).1 = false :=
  ⟨⟨by decide +kernel, by decide +kernel, by decide +kernel⟩, by decide +kernel,
    by decide +kernel, by decide +kernel⟩

end BigOS.Proc
