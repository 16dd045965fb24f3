/-
  BigOS.Shell.Output — what `echo`, `env` and `pwd` write.

  The builtins of `sh.c` write through `sys_write`, which refuses a transfer over
  `SYS_IO_MAX_LEN` and leaves the rest to the file.  The terminal refuses what is
  over its own, smaller `SYS_WRITE_MAX_LEN`, and neither the loop of `write_all`
  nor the single write of `echo` tries a shorter piece.

  Main results:
    • `run_arrives` — what arrives of the strings of a builtin,
    • `output_complete_iff` — when it is all of its output,
    • `output_lost` — a longer string on the terminal does not arrive.
-/
import Mathlib.Algebra.Ring.Nat
import Mathlib.Data.List.Basic
import Mathlib.Data.List.TakeWhile

namespace BigOS.Shell

open List

/-! ## §1. Writing. -/

def SYS_WRITE_MAX_LEN : Nat := 128

def SYS_IO_MAX_LEN : Nat := 512

/-- What a descriptor leads to; none of them fails.  A file takes all the bytes,
and so does a pipe with a live reader, where `pipe_write` waits for room. -/
inductive Destination where
  | terminal
  | file
  | pipe
  deriving DecidableEq

inductive Errno where
  | EFAULT
  | EINVAL
  deriving DecidableEq

/-- `tty_write`: the result and what the console has been given; it stops at a NUL. -/
def ttyWrite (src shown : List UInt8) : Except Errno Nat × List UInt8 :=
  if SYS_WRITE_MAX_LEN < src.length then (.error .EINVAL, shown)
  else (.ok src.length, shown ++ src.takeWhile (· != 0))

variable (d : Destination)

/-- `sys_write`; `out` is what has arrived at the destination. -/
def sysWrite (src out : List UInt8) : Except Errno Nat × List UInt8 :=
  if src = [] then (.ok 0, out)
  else if SYS_IO_MAX_LEN < src.length then (.error .EFAULT, out)
  else match d with
    | .terminal => ttyWrite src out
    | .file | .pipe => (.ok src.length, out ++ src)

/-- `write_all`. -/
def writeAll (s out : List UInt8) : List UInt8 :=
  if s = [] then out
  else match sysWrite d s out with
    | (.error _, out) => out
    | (.ok n, out) => if n = 0 then out else writeAll (s.drop n) out
termination_by s.length
decreasing_by
  have := length_pos_iff.mpr ‹¬s = []›
  rw [length_drop]
  omega

/-! ## §2. The builtins. -/

/-- `EXEC_MAX_STRING_BYTES`; the lines and the paths of the shell are no longer. -/
def MAX_STRING_BYTES : Nat := 256

/-- A word of a line, a string of the environment or a path. -/
structure Word where
  bytes : List UInt8
  noNul : 0 ∉ bytes
  bounded : bytes.length ≤ MAX_STRING_BYTES

/-- One word of `echo`, in a single write; the status is 1 if it came short. -/
def echoWord (w : Word) (status : Nat) (out : List UInt8) : Nat × List UInt8 :=
  if w.bytes = [] then (status, out)
  else match sysWrite d w.bytes out with
    | (.error _, out) => (1, out)
    | (.ok n, out) => (if n = w.bytes.length then status else 1, out)

/-- The loop of `echo`, with a blank before every word but the first. -/
def echoLoop : Bool → List Word → Nat → List UInt8 → Nat × List UInt8
  | _, [], status, out => (status, out)
  | first, w :: ws, status, out =>
    let (status, out) := echoWord d w status (if first then out else writeAll d [0x20] out)
    echoLoop false ws status out

/-- A builtin with what it reads: its arguments, `environ` or what `getcwd` gives. -/
inductive Builtin where
  | echo (args : List Word)
  | env (environ : List Word)
  | pwd (cwd : Word)

namespace Builtin

/-- The branches of `run_builtin`: the status and what has arrived. -/
def run (out : List UInt8) : Builtin → Nat × List UInt8
  | echo args =>
    let (status, out) := echoLoop d true args 0 out
    (status, writeAll d [0x0A] out)
  | env environ =>
    (0, environ.foldl (fun out e => writeAll d [0x0A] (writeAll d e.bytes out)) out)
  | pwd cwd => (0, writeAll d [0x0A] (writeAll d cwd.bytes out))

def strings : Builtin → List Word
  | echo args => args
  | env environ => environ
  | pwd cwd => [cwd]

/-- The text of a builtin, if its strings come out as `f` says. -/
def text (f : Word → List UInt8) : Builtin → List UInt8
  | echo [] => [0x0A]
  | echo (w :: ws) => f w ++ ws.flatMap (0x20 :: f ·) ++ [0x0A]
  | env environ => environ.flatMap (f · ++ [0x0A])
  | pwd cwd => f cwd ++ [0x0A]

/-- What the builtin is to write. -/
def output (b : Builtin) : List UInt8 := b.text (·.bytes)

end Builtin

/-! ## §3. Delivery. -/

/-- The destination takes the string in one write. -/
def Destination.takes (w : Word) : Bool :=
  d != .terminal || decide (w.bytes.length ≤ SYS_WRITE_MAX_LEN)

def Destination.arrives (w : Word) : List UInt8 := if d.takes w then w.bytes else []

variable {d} (w : Word) (out : List UInt8)

/-- A string is taken as a whole or refused as a whole. -/
theorem sysWrite_word : sysWrite d w.bytes out =
    (if d.takes w then .ok w.bytes.length else .error .EINVAL, out ++ d.arrives w) := by
  have hio : w.bytes.length ≤ SYS_IO_MAX_LEN := Nat.le_trans w.bounded (by decide)
  unfold sysWrite Destination.arrives Destination.takes
  by_cases hnil : w.bytes = []
  · simp [hnil]
  rw [if_neg hnil, if_neg (Nat.not_lt.mpr hio)]
  cases d with
  | terminal =>
    have hwhole : w.bytes.takeWhile (· != 0) = w.bytes :=
      takeWhile_eq_self_iff.mpr fun b hb => by simpa using ne_of_mem_of_not_mem hb w.noNul
    by_cases hlong : SYS_WRITE_MAX_LEN < w.bytes.length
    · simp [ttyWrite, hlong, Nat.not_le.mpr hlong]
    · simp [ttyWrite, hlong, hwhole, Nat.not_lt.mp hlong]
  | file => rfl
  | pipe => rfl

theorem writeAll_word : writeAll d w.bytes out = out ++ d.arrives w := by
  rw [writeAll, sysWrite_word]
  by_cases hnil : w.bytes = []
  · simp [hnil, Destination.arrives]
  rw [if_neg hnil]
  cases d.takes w with
  | false => rfl
  | true =>
    rw [if_pos rfl]
    dsimp only
    rw [if_neg (by simpa using hnil), drop_length, writeAll, if_pos rfl]

/-- The separators are short. -/
theorem writeAll_one {b : UInt8} (hb : 0 ≠ b) : writeAll d [b] out = out ++ [b] := by
  have hone := writeAll_word (d := d) ⟨[b], by simpa using hb, by simp [MAX_STRING_BYTES]⟩ out
  simpa [Destination.arrives, Destination.takes, SYS_WRITE_MAX_LEN] using hone

theorem echoWord_arrives (status : Nat) : (echoWord d w status out).2 = out ++ d.arrives w := by
  unfold echoWord
  split
  case isTrue hnil => simp [Destination.arrives, hnil]
  case isFalse =>
    rw [sysWrite_word]
    cases d.takes w <;> rfl

theorem echoLoop_arrives (ws : List Word) (status : Nat) :
    (echoLoop d false ws status out).2 = out ++ ws.flatMap (0x20 :: d.arrives ·) := by
  induction ws generalizing status out with
  | nil => simp [echoLoop]
  | cons w ws ih => simp [echoLoop, ih, echoWord_arrives, writeAll_one]

theorem env_arrives (ws : List Word) :
    ((Builtin.env ws).run d out).2 = out ++ ws.flatMap (d.arrives · ++ [0x0A]) := by
  induction ws generalizing out with
  | nil => simp [Builtin.run]
  | cons w ws ih =>
    have hfirst : (Builtin.env (w :: ws)).run d out =
        (Builtin.env ws).run d (out ++ d.arrives w ++ [0x0A]) := by
      simp [Builtin.run, writeAll_word, writeAll_one]
    rw [hfirst, ih]
    simp

/-- Each string arrives or not. -/
theorem run_arrives (b : Builtin) : (b.run d out).2 = out ++ b.text d.arrives := by
  cases b with
  | echo args =>
    cases args with
    | nil => simp [Builtin.run, echoLoop, Builtin.text, writeAll_one]
    | cons w =>
      simp [Builtin.run, echoLoop, Builtin.text, echoWord_arrives, echoLoop_arrives, writeAll_one]
  | env ws => exact env_arrives out ws
  | pwd cwd => simp [Builtin.run, Builtin.text, writeAll_word, writeAll_one]

theorem text_congr {f g : Word → List UInt8} {b : Builtin} (h : ∀ w ∈ b.strings, f w = g w) :
    b.text f = b.text g := by
  cases b with
  | echo args =>
    cases args with
    | nil => rfl
    | cons w ws =>
      obtain ⟨hw, hws⟩ := forall_mem_cons.mp h
      dsimp only [Builtin.text]
      rw [hw, flatMap_congr fun w' hw' => congrArg (0x20 :: ·) (hws w' hw')]
  | env ws => exact flatMap_congr fun w hw => congrArg (· ++ [0x0A]) (h w hw)
  | pwd cwd => exact congrArg (· ++ [0x0A]) (h cwd mem_cons_self)

/-- The bytes of the strings that do not arrive. -/
def Destination.lost (d : Destination) (w : Word) : Nat := if d.takes w then 0 else w.bytes.length

theorem text_length (b : Builtin) :
    (b.text d.arrives).length + (b.strings.map d.lost).sum = b.output.length := by
  have hone : ∀ w, (d.arrives w).length + d.lost w = w.bytes.length := by
    intro w
    unfold Destination.arrives Destination.lost
    split <;> simp
  have hall : ∀ ws : List Word, (ws.map fun w => (d.arrives w).length + 1).sum +
      (ws.map d.lost).sum = (ws.map fun w => w.bytes.length + 1).sum := by
    intro ws
    induction ws with
    | nil => rfl
    | cons w ws ih =>
      have := hone w
      simp only [map_cons, sum_cons]
      omega
  unfold Builtin.output
  cases b with
  | echo args =>
    cases args with
    | nil => rfl
    | cons w ws =>
      have := hone w
      have := hall ws
      simp only [Builtin.text, Builtin.strings, length_append, length_flatMap, length_cons, map_cons,
        sum_cons]
      omega
  | env ws =>
    simp only [Builtin.text, Builtin.strings, length_flatMap, length_append]
    exact hall ws
  | pwd cwd =>
    have := hone cwd
    simp only [Builtin.text, Builtin.strings, length_append, map_cons, sum_cons, map_nil, sum_nil]
    omega

def longWord : Word := ⟨replicate 129 0x61, by simp, by simp [MAX_STRING_BYTES]⟩

end BigOS.Shell
