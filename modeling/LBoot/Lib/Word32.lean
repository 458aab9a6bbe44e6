/-
  LBoot.Lib.Word32

  32-bit machine arithmetic on natural numbers: the value of a C expression
  of an unsigned 32-bit type is the exact value modulo `2 ^ 32`, that of a
  signed one the representative of the exact value in `[-2 ^ 31, 2 ^ 31)`.
-/

import Mathlib.Algebra.Group.Int.Defs
import Mathlib.Algebra.Group.Nat.Defs
import Mathlib.Data.Int.Init

namespace LBoot.Lib

/-- Reduction to an unsigned 32-bit value. -/
def u32 (x : Nat) : Nat := x % 2 ^ 32

/-- Unsigned 32-bit subtraction. -/
def sub32 (a b : Nat) : Nat := (a + (2 ^ 32 - b)) % 2 ^ 32

/-- Conversion to an unsigned 32-bit value. -/
def toU32 (x : Int) : Nat := (x % 2 ^ 32).toNat

/-- Reduction to a signed 32-bit value. -/
def s32 (x : Int) : Int := Int.bmod x (2 ^ 32)

theorem u32_of_lt {x : Nat} (h : x < 2 ^ 32) : u32 x = x := Nat.mod_eq_of_lt h

theorem sub32_of_le {a b : Nat} (h : b ≤ a) (ha : a < 2 ^ 32) : sub32 a b = a - b := by
  unfold sub32
  omega

/-- Below zero the difference wraps around. -/
theorem sub32_of_lt {a b : Nat} (h : a < b) (hb : b < 2 ^ 32) :
    sub32 a b = 2 ^ 32 - (b - a) := by
  unfold sub32
  omega

theorem toU32_of_nonneg {x : Int} (h0 : 0 ≤ x) (h : x < 2 ^ 32) : toU32 x = x.toNat := by
  rw [toU32, Int.emod_eq_of_lt h0 h]

theorem s32_of_range {x : Int} (hlo : -2 ^ 31 ≤ x) (hhi : x < 2 ^ 31) : s32 x = x :=
  Int.bmod_eq_of_le (by omega) (by omega)

end LBoot.Lib
