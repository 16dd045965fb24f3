/-
  BigOS.Mm.Memdef — the constants of `kernel/mm/memdef.h` and `buddy.h`, and
  the wrap-around of the fixed-width counters.
-/
import Mathlib.Algebra.Ring.Nat
import Mathlib.Tactic.Common

namespace BigOS.Mm

/-- `PAGE_SIZE`. -/
def PAGE_SIZE : Nat := 0x1000

/-- `BUDDY_MAX_ORDER`. -/
def BUDDY_MAX_ORDER : Nat := 10

/-- `get_pblk_size(ORDER)`. -/
def getPblkSize (order : Nat) : Nat := PAGE_SIZE * 2 ^ order

/-! ## Allocation flags (`_GFM_*`). -/

def GFM_ZONE_DMA32 : Nat := 1
def GFM_ZONE_DMA : Nat := 2
def GFM_ZONE_MASK : Nat := 3

/-! ## Fixed-width arithmetic. -/

/-- A `uint32_t` value. -/
def u32 (n : Nat) : Nat := n % 2 ^ 32

/-- `a - b` on `uint32_t`. -/
def u32Sub (a b : Nat) : Nat := u32 (a + 2 ^ 32 - b)

/-- A `uint64_t` value. -/
def u64 (n : Nat) : Nat := n % 2 ^ 64

/-- `a - b` on `uint64_t`. -/
def u64Sub (a b : Nat) : Nat := u64 (a + 2 ^ 64 - b)

theorem u32_of_lt {n : Nat} (h : n < 2 ^ 32) : u32 n = n := Nat.mod_eq_of_lt h

theorem u64_of_lt {n : Nat} (h : n < 2 ^ 64) : u64 n = n := Nat.mod_eq_of_lt h

/-- Below the width a subtraction that does not borrow is the exact one. -/
theorem u32Sub_of_le {a b : Nat} (ha : a < 2 ^ 32) (h : b ≤ a) : u32Sub a b = a - b := by
  unfold u32Sub u32
  omega

end BigOS.Mm
