import Nidas.Util.UTime

/-!
# Years

The day on which a year begins, and the year of a day, in days since 1 January 1970, by the
Gregorian calendar.
-/

namespace Nidas.Util

/-- The day on which a year begins. -/
def firstDay (year : ℤ) : ℤ :=
  365 * (year - 1970) + (year - 1969) / 4 - (year - 1901) / 100 + (year - 1601) / 400

/-- The year of a day: the estimate by the mean length of a year is at most one too small or too
large. -/
def yearOfDay (day : ℤ) : ℤ :=
  let year := 1970 + day * 400 / 146097
  if day < firstDay year then year - 1
  else if firstDay (year + 1) ≤ day then year + 1
  else year

/-- The time at which the year of a time begins. -/
def yearStart (t : ℤ) : ℤ := firstDay (yearOfDay (t / usecsPerDay)) * usecsPerDay

theorem firstDay_yearOfDay_le (day : ℤ) : firstDay (yearOfDay day) ≤ day := by
  unfold yearOfDay
  dsimp only
  split
  · unfold firstDay at *
    omega
  · split <;> omega

theorem lt_firstDay_yearOfDay (day : ℤ) : day < firstDay (yearOfDay day + 1) := by
  unfold yearOfDay
  dsimp only
  split
  · rw [Int.sub_add_cancel]
    assumption
  · split
    · unfold firstDay at *
      omega
    · omega

/-- A time is in the year that begins at `yearStart`. -/
theorem yearStart_le (t : ℤ) : yearStart t ≤ t := by
  have hday := firstDay_yearOfDay_le (t / usecsPerDay)
  have hrest := Int.emod_nonneg t (show usecsPerDay ≠ 0 by decide)
  have hdiv := Int.emod_add_mul_ediv t usecsPerDay
  calc yearStart t ≤ t / usecsPerDay * usecsPerDay :=
        Int.mul_le_mul_of_nonneg_right hday (by decide)
    _ ≤ t := by rw [Int.mul_comm]; omega

theorem lt_nextYear (t : ℤ) : t < firstDay (yearOfDay (t / usecsPerDay) + 1) * usecsPerDay := by
  have hday := lt_firstDay_yearOfDay (t / usecsPerDay)
  have hlt := Int.emod_lt_of_pos t (show 0 < usecsPerDay by decide)
  have hdiv := Int.emod_add_mul_ediv t usecsPerDay
  calc t < (t / usecsPerDay + 1) * usecsPerDay := by
        rw [Int.add_mul, Int.one_mul, Int.mul_comm]; omega
    _ ≤ firstDay (yearOfDay (t / usecsPerDay) + 1) * usecsPerDay :=
        Int.mul_le_mul_of_nonneg_right hday (by decide)

end Nidas.Util
