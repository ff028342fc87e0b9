import Mathlib.Data.Int.Init
import Mathlib.Tactic.Ring

/-!
# Integers of 32 bits

A value that is stored in a signed or unsigned integer of 32 bits is kept modulo `2 ^ 32`.  Within
the range of the type nothing happens to it.
-/

namespace Nidas.Lib

/-- Stored in a signed integer. -/
def toInt32 (value : ℤ) : ℤ := value.bmod (2 ^ 32)

/-- Stored in an unsigned integer. -/
def toUInt32 (value : ℤ) : ℤ := value % 2 ^ 32

theorem le_toInt32 (value : ℤ) : -2 ^ 31 ≤ toInt32 value := by
  have := Int.le_bmod (x := value) (m := 2 ^ 32) (by decide)
  unfold toInt32
  norm_num at this ⊢
  omega

theorem toInt32_lt (value : ℤ) : toInt32 value < 2 ^ 31 := by
  have := Int.bmod_lt (x := value) (m := 2 ^ 32) (by decide)
  unfold toInt32
  norm_num at this ⊢
  omega

theorem toInt32_of_range {value : ℤ} (hlow : -2 ^ 31 ≤ value) (hhigh : value < 2 ^ 31) :
    toInt32 value = value := by
  apply Int.bmod_eq_of_le
  · norm_num
    omega
  · norm_num
    omega

theorem toInt32_le_self {value : ℤ} (hlow : -2 ^ 31 ≤ value) : toInt32 value ≤ value := by
  by_cases hhigh : value < 2 ^ 31
  · rw [toInt32_of_range hlow hhigh]
  · have := toInt32_lt value
    omega

theorem toUInt32_of_range {value : ℤ} (hlow : 0 ≤ value) (hhigh : value < 2 ^ 32) :
    toUInt32 value = value :=
  Int.emod_eq_of_lt hlow hhigh

theorem toUInt32_nonneg (value : ℤ) : 0 ≤ toUInt32 value := Int.emod_nonneg _ (by norm_num)

theorem toUInt32_le_self {value : ℤ} (hlow : 0 ≤ value) : toUInt32 value ≤ value := by
  unfold toUInt32
  omega

theorem toInt32_toInt32_add (a b : ℤ) : toInt32 (toInt32 a + b) = toInt32 (a + b) :=
  Int.bmod_add_bmod

end Nidas.Lib
