import Mathlib.Data.Int.Init
import Mathlib.Tactic.Ring

/-!
# Times

Times are in microseconds since 1970.  `timeFloor` and `timeCeiling` round them to multiples of an
interval; their division is the one of C++, which rounds towards zero.
-/

namespace Nidas.Util

/-- `USECS_PER_SEC` -/
def usecsPerSec : ℤ := 1000000

/-- `SECS_PER_DAY` -/
def secsPerDay : ℤ := 86400

/-- `USECS_PER_DAY` -/
def usecsPerDay : ℤ := 86400000000

/-- `timeFloor` -/
def timeFloor (t delta : ℤ) : ℤ := t.tdiv delta * delta

/-- `timeCeiling`, which is above its argument also when that is a multiple. -/
def timeCeiling (t delta : ℤ) : ℤ := (t.tdiv delta + 1) * delta

variable {t delta : ℤ}

theorem timeFloor_eq (ht : 0 ≤ t) : timeFloor t delta = t - t % delta := by
  have hdiv := Int.emod_add_mul_ediv t delta
  unfold timeFloor
  rw [Int.tdiv_eq_ediv_of_nonneg ht, mul_comm]
  omega

theorem timeCeiling_eq (ht : 0 ≤ t) : timeCeiling t delta = t - t % delta + delta := by
  rw [← timeFloor_eq ht]
  unfold timeCeiling timeFloor
  ring

/-- The division of C++ by cases of the sign. -/
theorem tdiv_eq_ite (x d : ℤ) : x.tdiv d = if 0 ≤ x then x / d else -(-x / d) := by
  split
  · next hx => exact Int.tdiv_eq_ediv_of_nonneg hx
  · next hx =>
      rw [← Int.tdiv_eq_ediv_of_nonneg (by omega : 0 ≤ -x), Int.neg_tdiv, neg_neg]

end Nidas.Util
