import Mathlib.Algebra.Order.Ring.Int
import Mathlib.Algebra.Order.Ring.Nat
import Mathlib.Tactic.Common

namespace Sstoraged

def lba2Offset (lba : Nat) : Nat := lba <<< 9

def offset2Lba (offset : Nat) : Nat := offset >>> 9

@[simp] theorem lba2Offset_eq (lba : Nat) : lba2Offset lba = 512 * lba := by
  simp [lba2Offset, Nat.shiftLeft_eq, Nat.mul_comm]

@[simp] theorem offset2Lba_eq (offset : Nat) : offset2Lba offset = offset / 512 := by
  simp [offset2Lba, Nat.shiftRight_eq_div_pow]

/-- Fixed size of a common buffer. -/
def commonBufSize : Nat := 32 * 4096

/-- Store into a 32-bit unsigned variable. -/
def u32 (x : Int) : Nat := (x % 2 ^ 32).toNat

/-- Store into a 64-bit unsigned variable. -/
def u64 (x : Int) : Nat := (x % 2 ^ 64).toNat

theorem u32_natCast {n : Nat} (h : n < 2 ^ 32) : u32 (n : Int) = n := by
  unfold u32
  omega

theorem u32_sub {a b : Nat} (hb : b ≤ a) (h : a - b < 2 ^ 32) : u32 ((a : Int) - b) = a - b := by
  unfold u32
  omega

theorem u64_sub {a b : Nat} (hb : b ≤ a) (h : a - b < 2 ^ 64) : u64 ((a : Int) - b) = a - b := by
  unfold u64
  omega

theorem u32_lt (x : Int) : u32 x < 2 ^ 32 := by
  unfold u32
  omega

end Sstoraged
