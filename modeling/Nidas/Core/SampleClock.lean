import Mathlib.Algebra.Order.Group.Abs
import Mathlib.Algebra.Order.Group.Int
import Mathlib.Data.List.Chain
import Nidas.Core.Sample
import Nidas.Lib.Answers
import Nidas.Lib.MachineInt
import Nidas.Util.UTime

/-!
# The date of a sample

Drivers tag their samples with the time since midnight.  A `SampleClock` adds the date.  It has a
clock time in memory, with the midnight before it, and reads the system clock again only when a
sample is too far from that time.

## Strategy

Let a sample have the time `T`, near the system time, and let `c` be the time in memory.  What is
computed first is `T` on the day of `c`.  With `T` on the same day that is right, and reading
the system clock does no harm.  Otherwise the system clock has to be read, since the sum is then at
least a day away from it and is corrected; but the correction is by one day only, since the sum is
not computed again with the new midnight.  So the day of `T` must be next to that of `c`, and
the time of the day has to differ so much that the clock is read at all.
-/

namespace Nidas.Core

open Lib Util

/-- `SampleClock::status_t` -/
inductive ClockStatus where
  | noClock
  | outOfSpec
  | ok
  deriving DecidableEq, Repr

/-- The members of a `SampleClock`. -/
structure SampleClock where
  maxClockDiffSec : ℤ := 180
  t0day : ℤ
  clockTime : ℤ
  deriving DecidableEq, Repr

namespace SampleClock

/-- `SampleClock::setTime`, when the system time is `now` -/
def setTime (clock : SampleClock) (now : ℕ) : SampleClock :=
  { clock with clockTime := now, t0day := timeFloor now usecsPerDay }

/-- `SampleClock::SampleClock` -/
def create (now : ℕ) : SampleClock := { t0day := timeFloor now usecsPerDay, clockTime := now }

/-- The difference in seconds between a sample time and the time in memory, an `int`. -/
def tdiff (clock : SampleClock) (sampleTime : ℤ) : ℤ :=
  toInt32 ((sampleTime - clock.clockTime).tdiv usecsPerSec)

/-- `SampleClock::addSampleDate`, with the time tag that the sample has after it. -/
def addSampleDate (clock : SampleClock) (now : ℕ) (timeTag : ℤ) :
    SampleClock × ClockStatus × ℤ :=
  let sampleTime := clock.t0day + timeTag
  let clock :=
    if |clock.tdiff sampleTime| > clock.maxClockDiffSec then clock.setTime now else clock
  -- computed again with the new clock time, while `sampleTime` stays as it is
  let tdiff := clock.tdiff sampleTime
  if |tdiff| > clock.maxClockDiffSec then
    if |tdiff + secsPerDay| < clock.maxClockDiffSec then (clock, .ok, sampleTime + usecsPerDay)
    else if |tdiff - secsPerDay| < clock.maxClockDiffSec then
      (clock, .ok, sampleTime - usecsPerDay)
    else (clock, .outOfSpec, timeTag)
  else (clock, .ok, sampleTime)

/-- A call: the system time, and the time of the sample, of which the driver knows the time of the
day. -/
structure Call where
  now : ℕ
  trueTime : ℤ
  deriving DecidableEq, Repr

/-- One call. -/
def respond (clock : SampleClock) (call : Call) : SampleClock × ClockStatus × ℤ :=
  clock.addSampleDate call.now (call.trueTime % usecsPerDay)

/-- The day of the sample is at most the day of the clock time in memory, or it is the next one and
the times of the day differ by more than the limit. -/
def DateFound (clock : SampleClock) (call : Call) : Prop :=
  call.trueTime / usecsPerDay ≤ clock.clockTime / usecsPerDay ∨
    call.trueTime / usecsPerDay = clock.clockTime / usecsPerDay + 1 ∧
      (clock.maxClockDiffSec + 1) * usecsPerSec ≤
        |call.trueTime % usecsPerDay - clock.clockTime % usecsPerDay|

instance (clock : SampleClock) (call : Call) : Decidable (clock.DateFound call) :=
  inferInstanceAs (Decidable (_ ∨ _))

/-! ## One call -/

/-- What is known at a call: the time in memory is an earlier system time, and the sample is
2 seconds inside of the limit. -/
structure Given (clock : SampleClock) (call : Call) : Prop where
  limit : clock.maxClockDiffSec = 180
  clockTime_nonneg : 0 ≤ clock.clockTime
  clockTime_le : clock.clockTime ≤ call.now
  t0day_eq : clock.t0day = timeFloor clock.clockTime usecsPerDay
  near : |call.trueTime - call.now| ≤ (180 - 2) * usecsPerSec

variable {clock : SampleClock} {call : Call}

/-- The sum with the midnight in memory has the time of the day of the sample, and the day of the
clock time. -/
theorem Given.sampleTime_eq (hgiven : clock.Given call) :
    clock.t0day + call.trueTime % usecsPerDay =
      call.trueTime - (call.trueTime / usecsPerDay - clock.clockTime / usecsPerDay) *
        usecsPerDay := by
  rw [hgiven.t0day_eq, timeFloor_eq hgiven.clockTime_nonneg]
  unfold usecsPerDay
  omega

/-- Bounds of the difference in microseconds are bounds of the one in seconds. -/
theorem tdiff_bounds {sampleTime low high : ℤ} (hlow : -2 ^ 31 ≤ low) (hhigh : high < 2 ^ 31)
    (hge : low * usecsPerSec ≤ sampleTime - clock.clockTime)
    (hle : sampleTime - clock.clockTime ≤ high * usecsPerSec) :
    low ≤ clock.tdiff sampleTime ∧ clock.tdiff sampleTime ≤ high := by
  have hdiv : low ≤ (sampleTime - clock.clockTime).tdiv usecsPerSec ∧
      (sampleTime - clock.clockTime).tdiv usecsPerSec ≤ high := by
    rw [tdiv_eq_ite]
    unfold usecsPerSec at *
    split <;> omega
  unfold tdiff
  rw [toInt32_of_range (by omega) (by omega)]
  exact hdiv

/-- The clock is read when the difference is more than the limit, by a second. -/
theorem abs_tdiff_gt_iff {sampleTime limit : ℤ}
    (hrange : |sampleTime - clock.clockTime| < 2 ^ 31 * usecsPerSec) :
    |clock.tdiff sampleTime| > limit ↔
      (limit + 1) * usecsPerSec ≤ |sampleTime - clock.clockTime| := by
  unfold tdiff
  generalize sampleTime - clock.clockTime = diff at hrange ⊢
  rw [abs_lt] at hrange
  unfold usecsPerSec at *
  rw [tdiv_eq_ite, toInt32_of_range (by split <;> omega) (by split <;> omega)]
  split
  · next hpos =>
      rw [abs_of_nonneg (by omega : 0 ≤ diff), abs_of_nonneg (by omega)]
      omega
  · next hneg =>
      rw [abs_of_neg (by omega : diff < 0), abs_of_nonpos (by omega)]
      omega

/-- The clock after the time in memory was compared with the sum. -/
def refreshed (clock : SampleClock) (call : Call) : SampleClock :=
  if (clock.maxClockDiffSec + 1) * usecsPerSec ≤
      |clock.t0day + call.trueTime % usecsPerDay - clock.clockTime| then
    clock.setTime call.now
  else clock

/-- The tag is chosen by the second difference. -/
theorem Given.respond_eq (hgiven : clock.Given call) :
    clock.respond call =
      let sampleTime := clock.t0day + call.trueTime % usecsPerDay
      let tdiff := (clock.refreshed call).tdiff sampleTime
      if |tdiff| > 180 then
        if |tdiff + secsPerDay| < 180 then
          (clock.refreshed call, .ok, sampleTime + usecsPerDay)
        else if |tdiff - secsPerDay| < 180 then
          (clock.refreshed call, .ok, sampleTime - usecsPerDay)
        else (clock.refreshed call, .outOfSpec, call.trueTime % usecsPerDay)
      else (clock.refreshed call, .ok, sampleTime) := by
  have hrange : |clock.t0day + call.trueTime % usecsPerDay - clock.clockTime| <
      2 ^ 31 * usecsPerSec := by
    rw [hgiven.t0day_eq, timeFloor_eq hgiven.clockTime_nonneg, abs_lt]
    unfold usecsPerDay usecsPerSec
    omega
  have hmax : (clock.refreshed call).maxClockDiffSec = 180 := by
    unfold refreshed
    split
    · exact hgiven.limit
    · exact hgiven.limit
  have hclock : (if |clock.tdiff (clock.t0day + call.trueTime % usecsPerDay)| >
      clock.maxClockDiffSec then clock.setTime call.now else clock) = clock.refreshed call := by
    unfold refreshed
    exact if_congr (abs_tdiff_gt_iff hrange) rfl rfl
  unfold respond addSampleDate
  dsimp only
  rw [hclock, hmax]

/-- A tag that is set is the sum, or it is a day from it. -/
theorem Given.days_le_of_right (hgiven : clock.Given call)
    (hright : (clock.respond call).2 = (.ok, call.trueTime)) :
    call.trueTime / usecsPerDay - clock.clockTime / usecsPerDay ≤ 1 := by
  have hsum := hgiven.sampleTime_eq
  rw [hgiven.respond_eq] at hright
  dsimp only at hright
  rw [hsum] at hright
  unfold usecsPerDay at *
  split at hright
  · split at hright
    · simp only [Prod.mk.injEq, true_and] at hright
      omega
    · split at hright
      · simp only [Prod.mk.injEq, true_and] at hright
        omega
      · simp at hright
  · simp only [Prod.mk.injEq, true_and] at hright
    omega

/-- When the clock is read, the difference in seconds is that to the system time. -/
theorem Given.tdiff_setTime (hgiven : clock.Given call) (sampleTime days : ℤ)
    (hsum : sampleTime = call.trueTime - days * usecsPerDay) (hdays : |days| ≤ 1) :
    -178 - days * secsPerDay ≤ (clock.setTime call.now).tdiff sampleTime ∧
      (clock.setTime call.now).tdiff sampleTime ≤ 178 - days * secsPerDay := by
  have hnear := abs_le.mp hgiven.near
  have hdays := abs_le.mp hdays
  have hclock : (clock.setTime call.now).clockTime = call.now := rfl
  unfold secsPerDay
  apply tdiff_bounds
  · omega
  · omega
  · rw [hclock, hsum]
    unfold usecsPerSec usecsPerDay at *
    omega
  · rw [hclock, hsum]
    unfold usecsPerSec usecsPerDay at *
    omega

/-- When it is not read, the difference in seconds is within the limit. -/
theorem Given.abs_tdiff_le {sampleTime : ℤ}
    (hkept : ¬ (180 + 1) * usecsPerSec ≤ |sampleTime - clock.clockTime|) :
    |clock.tdiff sampleTime| ≤ 180 := by
  by_contra hbig
  apply hkept
  apply (abs_tdiff_gt_iff ?_).mp (not_le.mp hbig)
  apply lt_trans (not_le.mp hkept)
  unfold usecsPerSec
  omega

/-- A sample on the day of the clock time needs no correction. -/
theorem Given.respond_sameDay (hgiven : clock.Given call)
    (hday : call.trueTime / usecsPerDay = clock.clockTime / usecsPerDay) :
    (clock.respond call).2 = (.ok, call.trueTime) := by
  have hsum : clock.t0day + call.trueTime % usecsPerDay = call.trueTime := by
    rw [hgiven.sampleTime_eq, hday]
    ring
  have hsmall : |(clock.refreshed call).tdiff call.trueTime| ≤ 180 := by
    unfold refreshed
    rw [hsum, hgiven.limit]
    split
    · have := hgiven.tdiff_setTime call.trueTime 0 (by ring) (by simp)
      exact abs_le.mpr ⟨by omega, by omega⟩
    · next hkept => exact Given.abs_tdiff_le hkept
  rw [hgiven.respond_eq]
  dsimp only
  rw [hsum, if_neg (not_lt.mpr hsmall)]

/-- A sample on the next day, or on the one before, is corrected exactly if the clock is read. -/
theorem Given.respond_otherDay (hgiven : clock.Given call) (days : ℤ)
    (hday : call.trueTime / usecsPerDay - clock.clockTime / usecsPerDay = days)
    (hdays : days = 1 ∨ days = -1) :
    (clock.respond call).2 = (.ok, call.trueTime) ↔
      (180 + 1) * usecsPerSec ≤ |call.trueTime - days * usecsPerDay - clock.clockTime| := by
  have hsum := hgiven.sampleTime_eq
  rw [hday] at hsum
  rw [hgiven.respond_eq]
  dsimp only
  unfold refreshed
  rw [hsum, hgiven.limit]
  split
  · next hread =>
      have hdiff := hgiven.tdiff_setTime _ days rfl
        (abs_le.mpr ⟨by omega, by omega⟩)
      refine iff_of_true ?_ hread
      unfold secsPerDay usecsPerDay at *
      rcases hdays with rfl | rfl
      · rw [if_pos (lt_abs.mpr (Or.inr (by omega))), if_pos (abs_lt.mpr ⟨by omega, by omega⟩)]
        simp
      · rw [if_pos (lt_abs.mpr (Or.inl (by omega))),
          if_neg (by rw [abs_lt]; omega), if_pos (abs_lt.mpr ⟨by omega, by omega⟩)]
        simp
  · next hkept =>
      refine iff_of_false ?_ hkept
      rw [if_neg (not_lt.mpr (Given.abs_tdiff_le hkept))]
      simp only [Prod.mk.injEq, true_and]
      unfold usecsPerDay
      omega

/-- **One call is right exactly if the date is found.** -/
theorem Given.right_iff (hgiven : clock.Given call) :
    (clock.respond call).2 = (.ok, call.trueTime) ↔ clock.DateFound call := by
  have hnear := abs_le.mp hgiven.near
  have hle := hgiven.clockTime_le
  -- the time in memory is not after the system time, so the sample is at most a day before it
  have hback : -1 ≤ call.trueTime / usecsPerDay - clock.clockTime / usecsPerDay := by
    unfold usecsPerDay usecsPerSec at *
    omega
  unfold DateFound
  rw [hgiven.limit]
  rcases lt_trichotomy (call.trueTime / usecsPerDay - clock.clockTime / usecsPerDay) 0 with
    hneg | hzero | hpos
  · refine iff_of_true ?_ (Or.inl (by omega))
    rw [hgiven.respond_otherDay (-1) (by omega) (Or.inr rfl), le_abs]
    unfold usecsPerDay usecsPerSec at *
    omega
  · exact iff_of_true (hgiven.respond_sameDay (by omega)) (Or.inl (by omega))
  · by_cases hone : call.trueTime / usecsPerDay - clock.clockTime / usecsPerDay = 1
    · rw [hgiven.respond_otherDay 1 hone (Or.inl rfl)]
      have hsame : call.trueTime - 1 * usecsPerDay - clock.clockTime =
          call.trueTime % usecsPerDay - clock.clockTime % usecsPerDay := by
        unfold usecsPerDay at *
        omega
      rw [hsame]
      constructor
      · intro hfar
        exact Or.inr ⟨by omega, hfar⟩
      · rintro (hday | ⟨-, hfar⟩)
        · omega
        · exact hfar
    · refine iff_of_false ?_ (by omega)
      intro hright
      have := hgiven.days_le_of_right hright
      omega

/-! ## Runs -/

/-- The clock in memory at any time of a run: a system time that was read before. -/
structure Read (clock : SampleClock) (latest : ℕ) : Prop where
  limit : clock.maxClockDiffSec = 180
  clockTime_nonneg : 0 ≤ clock.clockTime
  clockTime_le : clock.clockTime ≤ latest
  t0day_eq : clock.t0day = timeFloor clock.clockTime usecsPerDay

theorem Read.create (now : ℕ) : (create now).Read now :=
  ⟨rfl, Int.natCast_nonneg now, le_refl _, rfl⟩

theorem Read.given {latest : ℕ} (hread : clock.Read latest) (hnow : latest ≤ call.now)
    (hnear : |call.trueTime - call.now| ≤ (180 - 2) * usecsPerSec) : clock.Given call :=
  ⟨hread.limit, hread.clockTime_nonneg, hread.clockTime_le.trans (by exact_mod_cast hnow),
    hread.t0day_eq, hnear⟩

theorem Given.read_respond (hgiven : clock.Given call) :
    (clock.respond call).1.Read call.now := by
  have hclock : (clock.respond call).1 = clock.refreshed call := by
    rw [hgiven.respond_eq]
    dsimp only
    split
    · split
      · rfl
      · split <;> rfl
    · rfl
  rw [hclock]
  unfold refreshed
  split
  · exact ⟨hgiven.limit, Int.natCast_nonneg _, le_refl _, rfl⟩
  · exact ⟨hgiven.limit, hgiven.clockTime_nonneg, hgiven.clockTime_le, hgiven.t0day_eq⟩

/-- With a system clock that is not set back, every call of a run has what it needs. -/
theorem Read.along_given {latest : ℕ} (hread : clock.Read latest) {calls : List Call}
    (hsorted : (latest :: calls.map Call.now).Pairwise (· ≤ ·))
    (hnear : ∀ call ∈ calls, |call.trueTime - call.now| ≤ (180 - 2) * usecsPerSec) :
    Along Given respond clock calls := by
  induction calls generalizing clock latest with
  | nil => trivial
  | cons call calls ih =>
      rw [List.map_cons, List.pairwise_cons] at hsorted
      have hgiven := hread.given (hsorted.1 _ List.mem_cons_self)
        (hnear call List.mem_cons_self)
      refine ⟨hgiven, ih hgiven.read_respond hsorted.2 ?_⟩
      intro other hother
      exact hnear other (List.mem_cons_of_mem _ hother)

/-- **In a run, all samples get their true time exactly if the date is found at every call.** -/
theorem answers_eq_trueTimes_iff (start : ℕ) (calls : List Call)
    (hsorted : (start :: calls.map Call.now).Pairwise (· ≤ ·))
    (hnear : ∀ call ∈ calls, |call.trueTime - call.now| ≤ (180 - 2) * usecsPerSec) :
    answers respond (create start) calls =
        calls.map (fun call => (ClockStatus.ok, call.trueTime)) ↔
      Along DateFound respond (create start) calls :=
  answers_eq_map_iff (fun _ _ hgiven => hgiven.right_iff)
    ((Read.create start).along_given hsorted hnear)

/-- Noon of a day, one second before midnight, and one second after it by a system clock that is
not there yet. -/
theorem answers_eq_trueTimes_around_midnight :
    answers respond (create 43200000000)
        [⟨86399000000, 86399000000⟩, ⟨86399500000, 86401000000⟩] =
      [(.ok, 86399000000), (.ok, 86401000000)] :=
  (answers_eq_trueTimes_iff 43200000000
    [⟨86399000000, 86399000000⟩, ⟨86399500000, 86401000000⟩] (by decide) (by decide)).mpr
    (by unfold Along Along Along; decide)

/-- A sample exactly one day after the clock was read gets the date of the day before. -/
theorem answers_one_day_later :
    [43200000000, 129600000000].Pairwise (· ≤ ·) ∧
      |(129600000000 : ℤ) - (129600000000 : ℕ)| ≤ (180 - 2) * usecsPerSec ∧
      answers respond (create 43200000000) [⟨129600000000, 129600000000⟩] =
        [(.ok, 43200000000)] := by
  decide

end SampleClock

end Nidas.Core
