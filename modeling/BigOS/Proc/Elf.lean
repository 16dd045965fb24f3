/-
  BigOS.Proc.Elf — validation of ELF images and the initial stack.

  An image is a file in a buffer: a length and its bytes.  Headers are read from the bytes
  in little-endian order.  A static image is loaded where it says; a position-independent
  one, and its interpreter, at a base, with the same checks of each loadable segment.

  Main definitions:
    • `validateElf`, `validateDynImage` — the checks, and the segments of an image,
    • `copyExecArgsToStack`, `copyExecArgsAndAuxvToStack` — the page of the first stack.
-/
import BigOS.Proc.Vma

namespace BigOS.Proc

open BigOS.Mm
open BigOS.Mm.Paging (PageAttr)

/-! ## §1. Images. -/

structure ElfImage where
  len : Nat
  bytes : Nat → UInt8

/-- A little-endian number of `width` bytes. -/
def readLe (bytes : Nat → UInt8) (offset : Nat) : Nat → Nat
  | 0 => 0
  | width + 1 => (bytes offset).toNat + 256 * readLe bytes (offset + 1) width

/-- The fields of `Elf64Header` that the loader reads. -/
structure Elf64Header where
  magic : Nat
  identClass : Nat
  identData : Nat
  identVersion : Nat
  type : Nat
  machine : Nat
  version : Nat
  entry : Nat
  phoff : Nat
  ehsize : Nat
  phentsize : Nat
  phnum : Nat
  deriving Repr, DecidableEq

/-- The fields of `Elf64ProgramHeader` that the loader reads. -/
structure Elf64ProgramHeader where
  type : Nat
  flags : Nat
  offset : Nat
  vaddr : Nat
  filesz : Nat
  memsz : Nat
  align : Nat
  deriving Repr, DecidableEq

def ELF_HEADER_SIZE : Nat := 64
def ELF_PROGRAM_HEADER_SIZE : Nat := 56

variable (image : ElfImage)

/-- The header at the start of an image. -/
def ElfImage.header : Elf64Header where
  magic := readLe image.bytes 0 4
  identClass := readLe image.bytes 4 1
  identData := readLe image.bytes 5 1
  identVersion := readLe image.bytes 6 1
  type := readLe image.bytes 16 2
  machine := readLe image.bytes 18 2
  version := readLe image.bytes 20 4
  entry := readLe image.bytes 24 8
  phoff := readLe image.bytes 32 8
  ehsize := readLe image.bytes 52 2
  phentsize := readLe image.bytes 54 2
  phnum := readLe image.bytes 56 2

/-- The program header at an offset. -/
def ElfImage.programHeader (at_ : Nat) : Elf64ProgramHeader where
  type := readLe image.bytes at_ 4
  flags := readLe image.bytes (at_ + 4) 4
  offset := readLe image.bytes (at_ + 8) 8
  vaddr := readLe image.bytes (at_ + 16) 8
  filesz := readLe image.bytes (at_ + 32) 8
  memsz := readLe image.bytes (at_ + 40) 8
  align := readLe image.bytes (at_ + 48) 8

/-- The program headers of an image, in order. -/
def ElfImage.programHeaders : List Elf64ProgramHeader :=
  (List.range image.header.phnum).map fun i =>
    image.programHeader (image.header.phoff + i * image.header.phentsize)

/-! ## §2. Segments. -/

inductive UserElfLoadError where
  | invalidArgument
  | unsupportedElf
  | badHeader
  | badProgramHeader
  | addressOutOfRange
  | segmentOverlap
  | unsafePermissions
  | entryNotExecutable
  | outOfMemory
  | mapFailed
  | copyFailed
  deriving Repr, DecidableEq

def ELF_MAX_LOAD_SEGMENTS : Nat := 8
def ELF_MAX_TRACKED_PAGES : Nat := 32
def USER_ELF_MAX_FILE_BYTES : Nat := 64 * 1024
def ELF_MAGIC : Nat := 0x464c457f
def ELF_TYPE_EXEC : Nat := 2
def ELF_TYPE_DYN : Nat := 3
def ELF_MACHINE_X86_64 : Nat := 62
def ELF_VERSION_CURRENT : Nat := 1
def PT_LOAD : Nat := 1
def PT_INTERP : Nat := 3
def PT_TLS : Nat := 7
def DYN_INTERP_PATH_MAX : Nat := 64

/-- `PF_X` and `PF_W` by their position. -/
def PF_X : Nat := 0
def PF_W : Nat := 1

structure LoadSegment where
  vaddr : Nat
  memsz : Nat
  filesz : Nat
  offset : Nat
  mapBase : Nat
  mapLen : Nat
  flags : Nat
  attr : PageAttr
  deriving Repr, DecidableEq

structure TrackedPage where
  vaddr : Nat
  attr : PageAttr
  deriving Repr, DecidableEq

/-- `segment_attr`. -/
def segmentAttr (flags : Nat) : PageAttr :=
  { PageAttr.zero with
    present := true
    user := true
    writable := flags.testBit PF_W
    noExecute := flags.testBit PF_W || !flags.testBit PF_X }

/-- `segment_permissions`. -/
def segmentPermissions (flags : Nat) : UInt8 :=
  VmaPermission.Read ||| (if flags.testBit PF_W then VmaPermission.Write else 0) |||
    (if flags.testBit PF_X then VmaPermission.Execute else 0)

/-- `is_writable_executable`. -/
def isWritableExecutable (flags : Nat) : Bool := flags.testBit PF_W && flags.testBit PF_X

/-- `is_power_of_two`. -/
def isPowerOfTwo (value : Nat) : Bool := value != 0 && value &&& (value - 1) == 0

/-- `elf_segment_shared_readonly_compatible`. -/
def elfSegmentSharedReadonlyCompatible (segment : LoadSegment) (backing : Option Nat) : Bool :=
  backing.isSome && !segment.flags.testBit PF_W && segment.filesz == segment.memsz &&
    pageAligned segment.vaddr && pageAligned segment.offset && segment.mapBase == segment.vaddr

/-- `track_page`. -/
def trackPage (pages : List TrackedPage) (page : TrackedPage) : Option (List TrackedPage) :=
  match pages.find? (fun tracked => tracked.vaddr == page.vaddr) with
  | some tracked => if tracked.attr = page.attr then some pages else none
  | none => if ELF_MAX_TRACKED_PAGES ≤ pages.length then none else some (pages ++ [page])

/-- The loop over the pages of a segment; it gives up after the pages that can be tracked. -/
def trackPages (attr : PageAttr) : List Nat → List TrackedPage → Option (List TrackedPage)
  | [], pages => some pages
  | page :: rest, pages => (trackPage pages ⟨page, attr⟩).bind (trackPages attr rest)

/-- What the loops of the validation have found so far. -/
structure Loaded where
  segments : List LoadSegment
  tracked : List TrackedPage
  entryExecutable : Bool

/-- The part of the two validation loops that is about a `PT_LOAD` header, at a base. -/
def loadHeader (base entry : Nat) (phdr : Elf64ProgramHeader)
    (found : Loaded) : Except UserElfLoadError Loaded :=
  if phdr.memsz == 0 || phdr.memsz < phdr.filesz || isWritableExecutable phdr.flags then
    .error .unsafePermissions
  else if phdr.align != 0 && phdr.align != 1 &&
      (!isPowerOfTwo phdr.align || PAGE_SIZE < phdr.align) then .error .badProgramHeader
  else
    let stackBase := USER_STACK_TOP - USER_STACK_PAGES * PAGE_SIZE
    match addOverflow base phdr.vaddr, addOverflow phdr.offset phdr.filesz with
    | some vaddr, some fileEnd =>
      match addOverflow vaddr phdr.memsz with
      | none => .error .addressOutOfRange
      | some memEnd =>
        if image.len < fileEnd || !userRangeValid vaddr phdr.memsz ||
            rangesOverlap vaddr phdr.memsz stackBase (USER_STACK_PAGES * PAGE_SIZE) then
          .error .addressOutOfRange
        else
          let mapBase := pageDown vaddr
          match pageUp memEnd with
          | none => .error .addressOutOfRange
          | some mapEnd =>
            if mapEnd ≤ mapBase then .error .addressOutOfRange
            else if found.segments.any (fun segment =>
                rangesOverlap mapBase (mapEnd - mapBase) segment.mapBase segment.mapLen) then
              .error .segmentOverlap
            else
              let attr := segmentAttr phdr.flags
              match trackPages attr (pagesIn mapBase mapEnd) found.tracked with
              | none => .error .unsafePermissions
              | some tracked =>
                .ok
                  { segments := found.segments ++ [⟨vaddr, phdr.memsz, phdr.filesz,
                      phdr.offset, mapBase, mapEnd - mapBase, phdr.flags, attr⟩]
                    tracked := tracked
                    entryExecutable := found.entryExecutable ||
                      (phdr.flags.testBit PF_X && vaddr ≤ entry && entry < memEnd) }
    | _, _ => .error .addressOutOfRange

/-! ## §3. Static images. -/

/-- The checks of the header that both kinds of image go through. -/
def validateHeader (type : Nat) : Option UserElfLoadError :=
  let ehdr := image.header
  if image.len < ELF_HEADER_SIZE || USER_ELF_MAX_FILE_BYTES < image.len then
    some .invalidArgument
  else if ehdr.magic != ELF_MAGIC || ehdr.identClass != 2 || ehdr.identData != 1 ||
      ehdr.identVersion != ELF_VERSION_CURRENT then some .unsupportedElf
  else if ehdr.type != type || ehdr.machine != ELF_MACHINE_X86_64 ||
      ehdr.version != ELF_VERSION_CURRENT || ehdr.ehsize != ELF_HEADER_SIZE ||
      ehdr.phentsize != ELF_PROGRAM_HEADER_SIZE || ehdr.phnum == 0 ||
      ELF_MAX_LOAD_SEGMENTS < ehdr.phnum then some .badHeader
  else
    match addOverflow ehdr.phoff (ehdr.phentsize * ehdr.phnum) with
    | none => some .badHeader
    | some tableEnd => if image.len < tableEnd then some .badHeader else none

/-- The loop of `validate_elf`. -/
def validateHeaders (image : ElfImage) :
    List Elf64ProgramHeader → Loaded → Except UserElfLoadError Loaded
  | [], found => .ok found
  | phdr :: rest, found =>
    -- Headers of the dynamic linker and of thread-local storage are refused as well.
    if phdr.type != PT_LOAD then .error .unsupportedElf
    else
      match loadHeader image 0 image.header.entry phdr found with
      | .error error => .error error
      | .ok found => validateHeaders image rest found

/-- `validate_elf`: the segments and the entry point. -/
def validateElf : Except UserElfLoadError (List LoadSegment × Nat) :=
  match validateHeader image ELF_TYPE_EXEC with
  | some error => .error error
  | none =>
    match validateHeaders image image.programHeaders ⟨[], [], false⟩ with
    | .error error => .error error
    | .ok found =>
      if found.segments.isEmpty then .error .badProgramHeader
      else if !userRangeValid image.header.entry 1 then .error .addressOutOfRange
      else if !found.entryExecutable then .error .entryNotExecutable
      else .ok (found.segments, image.header.entry)

/-! ## §4. Position-independent images. -/

/-- What the loop of `validate_dyn_image` has found so far. -/
structure DynLoaded where
  loaded : Loaded
  /-- The bytes of the interpreter's path, with the terminator. -/
  interp : Option (List UInt8)
  phdrVaddr : Option Nat

/-- `PT_INTERP`: the path is in the file and ends with a terminator. -/
def interpPath (phdr : Elf64ProgramHeader) : Option (List UInt8) :=
  match addOverflow phdr.offset phdr.filesz with
  | none => none
  | some interpEnd =>
    if image.len < interpEnd || phdr.filesz == 0 || DYN_INTERP_PATH_MAX < phdr.filesz ||
        image.bytes (phdr.offset + phdr.filesz - 1) != 0 then none
    else some ((List.range phdr.filesz).map fun i => image.bytes (phdr.offset + i))

/-- The loadable segment that holds the table of program headers. -/
def phdrTableVaddr (phdr : Elf64ProgramHeader) : Option Nat :=
  let ehdr := image.header
  if !phdr.flags.testBit PF_W && phdr.offset ≤ ehdr.phoff &&
      ehdr.phoff + ehdr.phentsize * ehdr.phnum ≤ phdr.offset + phdr.filesz then
    some ((phdr.vaddr + (ehdr.phoff - phdr.offset)) % 2 ^ 64)
  else none

/-- The loop of `validate_dyn_image`. -/
def validateDynHeaders (image : ElfImage) (base entry : Nat) (allowInterp : Bool) :
    List Elf64ProgramHeader → DynLoaded → Except UserElfLoadError DynLoaded
  | [], found => .ok found
  | phdr :: rest, found =>
    if phdr.type == PT_TLS then .error .unsupportedElf
    else if phdr.type == PT_INTERP then
      if !allowInterp || found.interp.isSome then .error .unsupportedElf
      else
        match interpPath image phdr with
        | none => .error .badProgramHeader
        | some path =>
          validateDynHeaders image base entry allowInterp rest
            { found with interp := some path }
    else if phdr.type != PT_LOAD then validateDynHeaders image base entry allowInterp rest found
    else
      match loadHeader image base entry phdr found.loaded with
      | .error error => .error error
      | .ok loaded =>
        validateDynHeaders image base entry allowInterp rest
          { found with
            loaded := loaded
            phdrVaddr := (phdrTableVaddr image phdr).or found.phdrVaddr }

structure DynLoadInfo where
  loadBase : Nat
  entry : Nat
  phdrAddr : Nat
  phnum : Nat
  phentsize : Nat
  deriving Repr, DecidableEq

/-- `validate_dyn_image`: the segments, what the stack says about them, and the path of
the interpreter. -/
def validateDynImage (base : Nat) (allowInterp : Bool) :
    Except UserElfLoadError (List LoadSegment × DynLoadInfo × Option (List UInt8)) :=
  if image.len < ELF_HEADER_SIZE || USER_ELF_MAX_FILE_BYTES < image.len || !pageAligned base then
    .error .invalidArgument
  else
    match validateHeader image ELF_TYPE_DYN with
    | some error => .error error
    | none =>
      let entry := (base + image.header.entry) % 2 ^ 64
      match validateDynHeaders image base entry allowInterp image.programHeaders
          ⟨⟨[], [], false⟩, none, none⟩ with
      | .error error => .error error
      | .ok found =>
        if found.loaded.segments.isEmpty then .error .badProgramHeader
        else if allowInterp && found.interp.isNone then .error .unsupportedElf
        else if allowInterp && found.phdrVaddr.isNone then .error .badProgramHeader
        else if !userRangeValid entry 1 then .error .addressOutOfRange
        else if !found.loaded.entryExecutable then .error .entryNotExecutable
        else
          .ok (found.loaded.segments,
            ⟨base, entry, (base + found.phdrVaddr.getD 0) % 2 ^ 64, image.header.phnum,
              image.header.phentsize⟩, found.interp)

/-! ## §5. The initial stack. -/

def EXEC_MAX_ARGC : Nat := 8
def EXEC_MAX_ENVC : Nat := 8
def EXEC_MAX_STRING_BYTES : Nat := 256
def USER_INITIAL_STACK_ALIGN : Nat := 16
def USER_DYN_MAX_AUXV : Nat := 16

/-- The strings of a call of `execve`, without their terminators. -/
structure ExecArgs where
  argv : List (List UInt8)
  envp : List (List UInt8)
  deriving Repr, DecidableEq

/-- A copy into a page. -/
def writeBytes (page : Nat → UInt8) (start : Nat) (data : List UInt8) : Nat → UInt8 := fun i =>
  if start ≤ i then (data[i - start]?).getD (page i) else page i

/-- The bytes of a `uint64_t`. -/
def wordBytes (word : Nat) : List UInt8 :=
  (List.range 8).map fun k => UInt8.ofNat (word / 256 ^ k)

/-- A page with the offset that the stack has reached. -/
structure StackPage where
  bytes : Nat → UInt8
  sp : Nat

/-- A string is put below the stack pointer. -/
def pushString (page : StackPage) (string : List UInt8) : Option StackPage :=
  if EXEC_MAX_STRING_BYTES < string.length || page.sp < string.length + 1 then none
  else
    let sp := page.sp - (string.length + 1)
    some ⟨writeBytes page.bytes sp (string ++ [0]), sp⟩

/-- The strings of a vector, and the addresses they get. -/
def pushStrings (stackBase : Nat) : List (List UInt8) → StackPage → Option (List Nat × StackPage)
  | [], page => some ([], page)
  | string :: rest, page =>
    (pushString page string).bind fun next =>
      (pushStrings stackBase rest next).map fun result =>
        ((stackBase + next.sp) :: result.1, result.2)

/-- A table of words is put below the stack pointer. -/
def pushWords (page : StackPage) (words : List Nat) : StackPage :=
  let sp := page.sp - words.length * 8
  ⟨writeBytes page.bytes sp (words.flatMap wordBytes), sp⟩

/-- The strings of the environment and of the arguments. -/
def pushArgs (stackBase : Nat) (args : ExecArgs) : Option (List Nat × List Nat × StackPage) :=
  if EXEC_MAX_ARGC < args.argv.length || EXEC_MAX_ENVC < args.envp.length then none
  else
    (pushStrings stackBase args.envp ⟨fun _ => 0, PAGE_SIZE⟩).bind fun env =>
      (pushStrings stackBase args.argv env.2).map fun arg =>
        (env.1, arg.1, { arg.2 with
          sp := arg.2.sp / USER_INITIAL_STACK_ALIGN * USER_INITIAL_STACK_ALIGN })

/-- The tables, from the top down, and the number of arguments. -/
def pushTables (stackBase : Nat) (page : StackPage) (auxv env arg : List Nat) :
    (Nat → UInt8) × Nat :=
  let page := pushWords page auxv
  let page := pushWords page (env ++ [0])
  let page := pushWords page (arg ++ [0])
  let page := pushWords page [arg.length]
  (page.bytes, stackBase + page.sp)

/-- `copy_exec_args_to_stack`, on a page of zeros: the page and the stack pointer. -/
def copyExecArgsToStack (stackBase : Nat) (args : ExecArgs) : Option ((Nat → UInt8) × Nat) :=
  (pushArgs stackBase args).bind fun (env, arg, page) =>
    if page.sp < 8 + (arg.length + 1) * 8 + (env.length + 1) * 8 then none
    else some (pushTables stackBase page [] env arg)

/-- `copy_exec_args_and_auxv_to_stack`, on a page of zeros. -/
def copyExecArgsAndAuxvToStack (stackBase : Nat) (args : ExecArgs) (auxv : List (Nat × Nat)) :
    Option ((Nat → UInt8) × Nat) :=
  if auxv.isEmpty || USER_DYN_MAX_AUXV < auxv.length then none
  else
    (pushArgs stackBase args).bind fun (env, arg, page) =>
      let frameBytes := 8 + (arg.length + 1) * 8 + (env.length + 1) * 8 + auxv.length * 16
      if page.sp < frameBytes then none
      else if (page.sp - frameBytes) % USER_INITIAL_STACK_ALIGN ≠ 0 ∧ page.sp < 8 then none
      else
        let sp := if (page.sp - frameBytes) % USER_INITIAL_STACK_ALIGN ≠ 0 then page.sp - 8
          else page.sp
        some (pushTables stackBase { page with sp := sp } (auxv.flatMap fun (a, b) => [a, b])
          env arg)

end BigOS.Proc
