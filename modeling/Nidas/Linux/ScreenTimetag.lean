import Nidas.Lib.MachineInt
import Nidas.Linux.Types

/-!
# Screening the time tags of a series

The tags of a series of fixed interval are late by what the interrupt was late.  `screenTimetag`
generates a series of its own: a start `tt0` and whole intervals from it.  The least lateness over
a number of points is added to the start, and once a day the number of intervals is
reduced by those of a day.

The part of the interval that is below a tenth of a millisecond is weighed a hundred times, the
reduction is exact only if the interval divides the day, and a start that is negative is not raised
by a day as one above the day is lowered.  When none of these matters the series has the interval it
should have, for ever: the state knows the number of the call up to days, and the rest is
arithmetic in the range of an integer.
-/

namespace Nidas.Linux

open Lib

/-! ## The code -/

/-- `struct screen_timetag_data`. -/
structure ScreenTimetagData where
  dtTmsec : ℤ
  dtUsec : ℤ
  nptsCalc : ℤ
  tt0 : ℤ
  nDt : ℤ
  samplesPerDay : ℤ
  nmin : ℤ
  nptsMin : ℤ
  tdiffmin : ℤ
  deriving DecidableEq

/-- `screen_timetag_init`. -/
def screenTimetagInit (td : ScreenTimetagData) (deltaTUsec adjustUsec : ℤ) : ScreenTimetagData :=
  let dtTmsec := toUInt32 (deltaTUsec.tdiv USECS_PER_TMSEC)
  { td with
    nptsCalc := toUInt32 (adjustUsec.tdiv deltaTUsec)
    dtTmsec := dtTmsec
    dtUsec := toUInt32 (deltaTUsec.tmod USECS_PER_TMSEC * USECS_PER_TMSEC)
    samplesPerDay := toUInt32 (TMSECS_PER_DAY.tdiv dtTmsec)
    nDt := -99999 }

namespace ScreenTimetagData

/-- The offset from `tt0`, in unsigned arithmetic. -/
def toff (td : ScreenTimetagData) : ℤ :=
  toUInt32 (toUInt32 (td.nDt * td.dtTmsec) + toUInt32 (td.nDt * td.dtUsec) / USECS_PER_TMSEC)

/-- Once the offset exceeds a day the intervals of a day are taken off. -/
def rollBack (td : ScreenTimetagData) : ScreenTimetagData :=
  if td.toff > TMSECS_PER_DAY then { td with nDt := toInt32 (td.nDt - td.samplesPerDay) } else td

/-- The difference between the tag and the expected one, with the rollover at midnight. -/
def tterr (td : ScreenTimetagData) (tt : ℤ) : ℤ :=
  let tterr := toInt32 (tt - toInt32 (td.tt0 + td.toff))
  let tterr := if tterr < (-TMSECS_PER_DAY).tdiv 2 then toInt32 (tterr + TMSECS_PER_DAY) else tterr
  if tterr > TMSECS_PER_DAY.tdiv 2 then toInt32 (tterr - TMSECS_PER_DAY) else tterr

/-- Keep the least difference, and add it to `tt0` after `nptsMin` points. -/
def adjust (td : ScreenTimetagData) (tterr : ℤ) : ScreenTimetagData :=
  let td := { td with nmin := toInt32 (td.nmin + 1), tdiffmin := min tterr td.tdiffmin }
  if td.nmin = td.nptsMin then
    { td with
      tt0 := toInt32 (td.tt0 + td.tdiffmin)
      nmin := 0
      tdiffmin := TMSECS_PER_SEC
      nptsMin := toInt32 td.nptsCalc }
  else td

/-- A start beyond the day is brought back. -/
def wrapStart (td : ScreenTimetagData) : ScreenTimetagData :=
  if td.tt0 ≥ TMSECS_PER_DAY then { td with tt0 := toInt32 (td.tt0 - TMSECS_PER_DAY) } else td

end ScreenTimetagData

/-- `screen_timetag`: the tag that is returned and the data afterwards. -/
def screenTimetag (td : ScreenTimetagData) (tt : ℤ) : ℤ × ScreenTimetagData :=
  if td.nDt = -99999 then
    -- First point in time series, not adjusted.
    (tt, { td with tt0 := tt, nDt := 1, tdiffmin := TMSECS_PER_SEC, nmin := 0, nptsMin := 10 })
  else
    let td := td.rollBack
    let toff := td.toff
    let td := (td.adjust (td.tterr tt)).wrapStart
    let td := { td with nDt := toInt32 (td.nDt + 1) }
    let ttEst := toInt32 (td.tt0 + toff)
    (if ttEst ≥ TMSECS_PER_DAY then toInt32 (ttEst - TMSECS_PER_DAY) else ttEst, td)

/-! ## Runs -/

namespace ScreenTimetagData

variable (td : ScreenTimetagData) (tags : ℕ → ℤ)

/-- The data after the first `n` calls. -/
def after : ℕ → ScreenTimetagData
  | 0 => td
  | n + 1 => (screenTimetag (after n) (tags n)).2

/-- What the call that is `n` calls after the first returns. -/
def returned (n : ℕ) : ℤ := (screenTimetag (td.after tags n) (tags n)).1

@[simp] theorem after_zero : td.after tags 0 = td := rfl

theorem after_succ (n : ℕ) :
    td.after tags (n + 1) = (screenTimetag (td.after tags n) (tags n)).2 := rfl

/-- The series advances by the interval, and its tags are times of the day. -/
structure Regular (deltaTUsec : ℤ) : Prop where
  returned_eq : ∀ n : ℕ, 1 ≤ n → td.returned tags n =
    ((td.after tags (n + 1)).tt0 + n * deltaTUsec / USECS_PER_TMSEC) % TMSECS_PER_DAY
  in_day : ∀ n, 0 ≤ td.returned tags n ∧ td.returned tags n < TMSECS_PER_DAY

end ScreenTimetagData

/-! ## One call -/

namespace ScreenTimetagData

/-- The intervals since the start, with those of a day taken off. -/
def count (td : ScreenTimetagData) : ℤ :=
  if td.nDt > td.samplesPerDay then td.nDt - td.samplesPerDay else td.nDt

/-- The time that is expected for the next tag. -/
def expected (td : ScreenTimetagData) : ℤ := td.tt0 + td.count * td.dtTmsec

/-- How late a tag is against the time expected for it, around midnight. -/
def late (td : ScreenTimetagData) (tt : ℤ) : ℤ :=
  if tt - td.expected < -432000000 then tt - td.expected + TMSECS_PER_DAY
  else if tt - td.expected > 432000000 then tt - td.expected - TMSECS_PER_DAY
  else tt - td.expected

/-- What is added to the start at the next tag. -/
def shift (td : ScreenTimetagData) (tt : ℤ) : ℤ :=
  if td.nmin + 1 = td.nptsMin then min (td.late tt) td.tdiffmin else 0

/-- The next tag of the series is not before the midnight that the start is counted from. -/
def NotBefore (td : ScreenTimetagData) (tt : ℤ) : Prop := 0 ≤ td.expected + td.shift tt

/-- The data before the call that is `n` calls after the first, for an interval of `dt` tenths of
milliseconds. -/
structure Running (dt : ℤ) (n : ℕ) (td : ScreenTimetagData) : Prop where
  dtTmsec_eq : td.dtTmsec = dt
  dtUsec_eq : td.dtUsec = 0
  samplesPerDay_eq : td.samplesPerDay = TMSECS_PER_DAY / dt
  nDt_pos : 1 ≤ td.nDt
  nDt_le : td.nDt ≤ TMSECS_PER_DAY / dt + 1
  days : TMSECS_PER_DAY / dt ∣ n - td.nDt
  tt0_ge : -TMSECS_PER_DAY ≤ td.tt0
  tt0_lt : td.tt0 < TMSECS_PER_DAY
  tdiffmin_ge : -TMSECS_PER_DAY ≤ td.tdiffmin
  tdiffmin_le : td.tdiffmin ≤ TMSECS_PER_SEC
  nmin_ge : 0 ≤ td.nmin
  nmin_lt : td.nmin < td.nptsMin
  nptsMin_lt : td.nptsMin < 2 ^ 31
  nptsCalc_pos : 0 < td.nptsCalc
  nptsCalc_lt : td.nptsCalc < 2 ^ 31

variable {dt : ℤ} {n : ℕ} {td : ScreenTimetagData}

/-- Up to the number of intervals in a day the offset is within the day, beyond it is not. -/
theorem mul_le_day_iff (hdt : 1 ≤ dt) {k : ℤ} :
    k * dt ≤ TMSECS_PER_DAY ↔ k ≤ TMSECS_PER_DAY / dt :=
  (Int.le_ediv_iff_mul_le (by omega)).symm

namespace Running

variable (hrun : Running dt n td)

include hrun

theorem count_eq : td.count = if td.nDt = TMSECS_PER_DAY / dt + 1 then 1 else td.nDt := by
  have hle := hrun.nDt_le
  unfold count
  rw [hrun.samplesPerDay_eq]
  split <;> split <;> omega

theorem count_bounds (hdt : 1 ≤ dt) (hmax : dt < TMSECS_PER_DAY) :
    1 ≤ td.count ∧ td.count ≤ TMSECS_PER_DAY / dt := by
  have hone : (1 : ℤ) ≤ TMSECS_PER_DAY / dt := (mul_le_day_iff hdt).mp (by omega)
  have hpos := hrun.nDt_pos
  have hle := hrun.nDt_le
  rw [hrun.count_eq]
  split <;> omega

theorem days_count : TMSECS_PER_DAY / dt ∣ n - td.count := by
  have hdays := hrun.days
  rw [hrun.count_eq]
  split
  · next htop =>
      rw [htop] at hdays
      have hsum := Int.dvd_add hdays (Int.dvd_refl (TMSECS_PER_DAY / dt))
      convert hsum using 1
      ring
  · exact hdays

/-- The offset of the expected time. -/
theorem offset_bounds (hdt : 1 ≤ dt) (hmax : dt < TMSECS_PER_DAY) :
    dt ≤ td.count * dt ∧ td.count * dt ≤ TMSECS_PER_DAY := by
  obtain ⟨hone, hle⟩ := hrun.count_bounds hdt hmax
  refine ⟨?_, (mul_le_day_iff hdt).mpr hle⟩
  calc dt = 1 * dt := (one_mul dt).symm
    _ ≤ td.count * dt := Int.mul_le_mul_of_nonneg_right hone (by omega)

omit hrun in
theorem toff_eq {k : ℤ} (hdtT : td.dtTmsec = dt) (hdtU : td.dtUsec = 0) (hk : td.nDt = k)
    (hlow : 0 ≤ k * dt) (hhigh : k * dt < 2 ^ 32) : td.toff = k * dt := by
  unfold toff
  rw [hdtT, hdtU, hk, toUInt32_of_range hlow hhigh, mul_zero]
  have hzero : toUInt32 0 / USECS_PER_TMSEC = 0 := by decide
  rw [hzero, add_zero, toUInt32_of_range hlow hhigh]

theorem rollBack_eq (hdt : 1 ≤ dt) (hmax : dt < 2 ^ 31) :
    td.rollBack = { td with nDt := td.count } := by
  have hpos := hrun.nDt_pos
  have hle := hrun.nDt_le
  have hnonneg : 0 ≤ td.nDt * dt := Int.mul_nonneg (by omega) (by omega)
  have htop : td.nDt * dt ≤ TMSECS_PER_DAY + dt := by
    calc td.nDt * dt ≤ (TMSECS_PER_DAY / dt + 1) * dt :=
          Int.mul_le_mul_of_nonneg_right hle (by omega)
      _ = TMSECS_PER_DAY / dt * dt + dt := by ring
      _ ≤ TMSECS_PER_DAY + dt := by
          have := (mul_le_day_iff hdt).mpr (le_refl (TMSECS_PER_DAY / dt))
          omega
  have htoff : td.toff = td.nDt * dt :=
    toff_eq hrun.dtTmsec_eq hrun.dtUsec_eq rfl hnonneg (by unfold TMSECS_PER_DAY at htop; omega)
  unfold rollBack
  rw [htoff, hrun.count_eq]
  by_cases hlast : td.nDt = TMSECS_PER_DAY / dt + 1
  · have hover : td.nDt * dt > TMSECS_PER_DAY := by
      by_contra hnot
      have := (mul_le_day_iff hdt).mp (not_lt.mp hnot)
      omega
    rw [if_pos hover, if_pos hlast, hrun.samplesPerDay_eq, hlast]
    have hone : TMSECS_PER_DAY / dt + 1 - TMSECS_PER_DAY / dt = 1 := by ring
    rw [hone]
    rfl
  · have hwithin : ¬ td.nDt * dt > TMSECS_PER_DAY :=
      not_lt.mpr ((mul_le_day_iff hdt).mpr (by omega))
    rw [if_neg hwithin, if_neg hlast]

theorem toff_rollBack (hdt : 1 ≤ dt) (hmax : dt < TMSECS_PER_DAY) :
    td.rollBack.toff = td.count * dt := by
  obtain ⟨hlow, hhigh⟩ := hrun.offset_bounds hdt hmax
  unfold TMSECS_PER_DAY at hmax hhigh
  rw [hrun.rollBack_eq hdt (by omega)]
  exact toff_eq hrun.dtTmsec_eq hrun.dtUsec_eq rfl (by omega) (by omega)

/-- The difference is computed in the range of an integer. -/
theorem tterr_rollBack (hdt : 1 ≤ dt) (hmax : dt < TMSECS_PER_DAY) {tt : ℤ} (hlow : 0 ≤ tt)
    (hhigh : tt < TMSECS_PER_DAY) : td.rollBack.tterr tt = td.late tt := by
  obtain ⟨hoff, hoff'⟩ := hrun.offset_bounds hdt hmax
  have htt0 := hrun.tt0_ge
  have htt0' := hrun.tt0_lt
  have hhalf : TMSECS_PER_DAY.tdiv 2 = 432000000 := by decide
  have hhalf' : (-TMSECS_PER_DAY).tdiv 2 = -432000000 := by decide
  have hstart : td.rollBack.tt0 = td.tt0 := by
    unfold rollBack
    split <;> rfl
  simp only [tterr, late, expected, hhalf, hhalf', hrun.dtTmsec_eq, hrun.toff_rollBack hdt hmax,
    hstart]
  generalize td.count * dt = off at hoff hoff' ⊢
  unfold TMSECS_PER_DAY at *
  have hest : toInt32 (td.tt0 + off) = td.tt0 + off := toInt32_of_range (by omega) (by omega)
  rw [hest, toInt32_of_range (by omega) (by omega)]
  split
  · rw [toInt32_of_range (by omega) (by omega), if_neg (by omega)]
  · split
    · rw [toInt32_of_range (by omega) (by omega)]
    · rfl

theorem late_bounds (hdt : 1 ≤ dt) (hmax : dt < TMSECS_PER_DAY) {tt : ℤ} (hlow : 0 ≤ tt)
    (hhigh : tt < TMSECS_PER_DAY) :
    -TMSECS_PER_DAY ≤ td.late tt ∧ td.late tt < TMSECS_PER_DAY := by
  obtain ⟨hoff, hoff'⟩ := hrun.offset_bounds hdt hmax
  have htt0 := hrun.tt0_ge
  have htt0' := hrun.tt0_lt
  simp only [late, expected, hrun.dtTmsec_eq]
  unfold TMSECS_PER_DAY at *
  split
  · omega
  · split <;> omega

end Running

/-- The start that the call leaves. -/
def nextStart (td : ScreenTimetagData) (tt : ℤ) : ℤ :=
  if td.tt0 + td.shift tt ≥ TMSECS_PER_DAY then td.tt0 + td.shift tt - TMSECS_PER_DAY
  else td.tt0 + td.shift tt

namespace Running

variable (hrun : Running dt n td) {tt : ℤ}

include hrun

theorem shift_bounds (hdt : 1 ≤ dt) (hmax : dt < TMSECS_PER_DAY) (hlow : 0 ≤ tt)
    (hhigh : tt < TMSECS_PER_DAY) :
    -TMSECS_PER_DAY ≤ td.shift tt ∧ td.shift tt ≤ TMSECS_PER_SEC := by
  have hlate := hrun.late_bounds hdt hmax hlow hhigh
  have hmin := hrun.tdiffmin_ge
  have hmin' := hrun.tdiffmin_le
  unfold shift
  split
  · exact ⟨le_min hlate.1 hmin, (min_le_right _ _).trans hmin'⟩
  · decide

theorem nextStart_bounds (hdt : 1 ≤ dt) (hmax : dt < TMSECS_PER_DAY) (hlow : 0 ≤ tt)
    (hhigh : tt < TMSECS_PER_DAY) :
    -2 * TMSECS_PER_DAY ≤ td.nextStart tt ∧ td.nextStart tt < TMSECS_PER_DAY := by
  obtain ⟨hshift, hshift'⟩ := hrun.shift_bounds hdt hmax hlow hhigh
  have htt0 := hrun.tt0_ge
  have htt0' := hrun.tt0_lt
  unfold nextStart
  unfold TMSECS_PER_DAY TMSECS_PER_SEC at *
  split <;> omega

/-- What the adjustment leaves. -/
theorem adjust_eq (hdt : 1 ≤ dt) (hmax : dt < TMSECS_PER_DAY) (hlow : 0 ≤ tt)
    (hhigh : tt < TMSECS_PER_DAY) :
    td.rollBack.adjust (td.rollBack.tterr tt) =
      if td.nmin + 1 = td.nptsMin then
        { td with
          nDt := td.count
          tt0 := td.tt0 + td.shift tt
          nmin := 0
          tdiffmin := TMSECS_PER_SEC
          nptsMin := td.nptsCalc }
      else
        { td with
          nDt := td.count
          nmin := td.nmin + 1
          tdiffmin := min (td.late tt) td.tdiffmin } := by
  obtain ⟨hshift, hshift'⟩ := hrun.shift_bounds hdt hmax hlow hhigh
  have htt0 := hrun.tt0_ge
  have htt0' := hrun.tt0_lt
  have hnmin := hrun.nmin_ge
  have hnmin' := hrun.nmin_lt
  have hnpts := hrun.nptsMin_lt
  have hinc : toInt32 (td.nmin + 1) = td.nmin + 1 := toInt32_of_range (by omega) (by omega)
  have hcalc : toInt32 td.nptsCalc = td.nptsCalc :=
    toInt32_of_range (by have := hrun.nptsCalc_pos; omega) hrun.nptsCalc_lt
  rw [hrun.tterr_rollBack hdt hmax hlow hhigh,
    hrun.rollBack_eq hdt (by unfold TMSECS_PER_DAY at hmax; omega)]
  simp only [adjust, hinc, hcalc]
  unfold shift at hshift hshift' ⊢
  split
  · next hlast =>
      rw [if_pos hlast] at hshift hshift'
      unfold TMSECS_PER_DAY TMSECS_PER_SEC at *
      rw [toInt32_of_range (by omega) (by omega)]
  · rfl

theorem wrapStart_eq {adjusted : ScreenTimetagData}
    (hadjusted : adjusted.tt0 = td.tt0 + td.shift tt) (hdt : 1 ≤ dt) (hmax : dt < TMSECS_PER_DAY)
    (hlow : 0 ≤ tt) (hhigh : tt < TMSECS_PER_DAY) :
    adjusted.wrapStart = { adjusted with tt0 := td.nextStart tt } := by
  obtain ⟨hshift, hshift'⟩ := hrun.shift_bounds hdt hmax hlow hhigh
  have htt0 := hrun.tt0_ge
  have htt0' := hrun.tt0_lt
  unfold wrapStart nextStart
  rw [hadjusted]
  unfold TMSECS_PER_DAY TMSECS_PER_SEC at *
  split
  · rw [toInt32_of_range (by omega) (by omega)]
  · rw [← hadjusted]

/-- **One call.**  The tag is the offset from the start that the call leaves, brought back by at
most a day. -/
theorem call (hdt : 1 ≤ dt) (hmax : dt < TMSECS_PER_DAY) (hlow : 0 ≤ tt)
    (hhigh : tt < TMSECS_PER_DAY) :
    screenTimetag td tt =
      (if td.nextStart tt + td.count * dt ≥ TMSECS_PER_DAY then
          td.nextStart tt + td.count * dt - TMSECS_PER_DAY
        else td.nextStart tt + td.count * dt,
      { td with
        tt0 := td.nextStart tt
        nDt := td.count + 1
        nmin := if td.nmin + 1 = td.nptsMin then 0 else td.nmin + 1
        tdiffmin :=
          if td.nmin + 1 = td.nptsMin then TMSECS_PER_SEC else min (td.late tt) td.tdiffmin
        nptsMin := if td.nmin + 1 = td.nptsMin then td.nptsCalc else td.nptsMin }) := by
  obtain ⟨hstart, hstart'⟩ := hrun.nextStart_bounds hdt hmax hlow hhigh
  obtain ⟨hoff, hoff'⟩ := hrun.offset_bounds hdt hmax
  obtain ⟨hone, hcount⟩ := hrun.count_bounds hdt hmax
  have hfirst : td.nDt ≠ -99999 := by have := hrun.nDt_pos; omega
  have htop : TMSECS_PER_DAY / dt ≤ TMSECS_PER_DAY := Int.ediv_le_self _ (by decide)
  have hadjust := hrun.adjust_eq hdt hmax hlow hhigh
  have hadjusted : (td.rollBack.adjust (td.rollBack.tterr tt)).tt0 = td.tt0 + td.shift tt := by
    rw [hadjust]
    split
    · rfl
    · next hmore => simp [shift, hmore]
  have hinc : toInt32 (td.count + 1) = td.count + 1 := by
    unfold TMSECS_PER_DAY at *
    exact toInt32_of_range (by omega) (by omega)
  have hest : toInt32 (td.nextStart tt + td.count * dt) = td.nextStart tt + td.count * dt := by
    unfold TMSECS_PER_DAY at *
    exact toInt32_of_range (by omega) (by omega)
  have hback : td.nextStart tt + td.count * dt ≥ TMSECS_PER_DAY →
      toInt32 (td.nextStart tt + td.count * dt - TMSECS_PER_DAY) =
        td.nextStart tt + td.count * dt - TMSECS_PER_DAY := by
    intro hbeyond
    unfold TMSECS_PER_DAY at *
    exact toInt32_of_range (by omega) (by omega)
  simp only [screenTimetag, if_neg hfirst, hrun.toff_rollBack hdt hmax,
    hrun.wrapStart_eq hadjusted hdt hmax hlow hhigh, hest]
  congr 1
  · split
    · next hbeyond => exact hback hbeyond
    · rfl
  · rw [hadjust]
    split <;> simp [hinc]

/-- The tag is a time of the day exactly if it is not before midnight. -/
theorem returned_nonneg_iff (hdt : 1 ≤ dt) (hmax : dt < TMSECS_PER_DAY) (hlow : 0 ≤ tt)
    (hhigh : tt < TMSECS_PER_DAY) : 0 ≤ (screenTimetag td tt).1 ↔ td.NotBefore tt := by
  obtain ⟨hoff, hoff'⟩ := hrun.offset_bounds hdt hmax
  obtain ⟨hshift, hshift'⟩ := hrun.shift_bounds hdt hmax hlow hhigh
  have htt0 := hrun.tt0_lt
  rw [hrun.call hdt hmax hlow hhigh]
  unfold NotBefore expected nextStart
  rw [hrun.dtTmsec_eq]
  unfold TMSECS_PER_DAY at *
  split <;> split <;> omega

theorem returned_lt (hdt : 1 ≤ dt) (hmax : dt < TMSECS_PER_DAY) (hlow : 0 ≤ tt)
    (hhigh : tt < TMSECS_PER_DAY) : (screenTimetag td tt).1 < TMSECS_PER_DAY := by
  obtain ⟨hoff, hoff'⟩ := hrun.offset_bounds hdt hmax
  obtain ⟨hstart, hstart'⟩ := hrun.nextStart_bounds hdt hmax hlow hhigh
  rw [hrun.call hdt hmax hlow hhigh]
  split <;> omega

/-- A call whose tag is not before midnight keeps the invariant. -/
theorem next (hdt : 1 ≤ dt) (hmax : dt < TMSECS_PER_DAY) (hlow : 0 ≤ tt)
    (hhigh : tt < TMSECS_PER_DAY) (hnot : td.NotBefore tt) :
    Running dt (n + 1) (screenTimetag td tt).2 := by
  obtain ⟨hone, hcount⟩ := hrun.count_bounds hdt hmax
  obtain ⟨hoff, hoff'⟩ := hrun.offset_bounds hdt hmax
  obtain ⟨hstart, hstart'⟩ := hrun.nextStart_bounds hdt hmax hlow hhigh
  obtain ⟨hlate, hlate'⟩ := hrun.late_bounds hdt hmax hlow hhigh
  have hge : -TMSECS_PER_DAY ≤ td.nextStart tt := by
    unfold NotBefore expected at hnot
    rw [hrun.dtTmsec_eq] at hnot
    unfold nextStart
    unfold TMSECS_PER_DAY at *
    split <;> omega
  have hdays : TMSECS_PER_DAY / dt ∣ ((n + 1 : ℕ) : ℤ) - (td.count + 1) := by
    have := hrun.days_count
    convert this using 1
    push_cast
    ring
  have hnmin := hrun.nmin_ge
  have hnmin' := hrun.nmin_lt
  rw [hrun.call hdt hmax hlow hhigh]
  exact
    { dtTmsec_eq := hrun.dtTmsec_eq
      dtUsec_eq := hrun.dtUsec_eq
      samplesPerDay_eq := hrun.samplesPerDay_eq
      nDt_pos := by dsimp only; omega
      nDt_le := by dsimp only; omega
      days := hdays
      tt0_ge := hge
      tt0_lt := hstart'
      tdiffmin_ge := by
        dsimp only
        split
        · decide
        · exact le_min hlate hrun.tdiffmin_ge
      tdiffmin_le := by
        dsimp only
        split
        · exact le_refl _
        · exact (min_le_right _ _).trans hrun.tdiffmin_le
      nmin_ge := by dsimp only; split <;> omega
      nmin_lt := by
        have := hrun.nptsCalc_pos
        dsimp only
        split <;> omega
      nptsMin_lt := by
        dsimp only
        split
        · exact hrun.nptsCalc_lt
        · exact hrun.nptsMin_lt
      nptsCalc_pos := hrun.nptsCalc_pos
      nptsCalc_lt := hrun.nptsCalc_lt }

theorem returned_emod_count (hdt : 1 ≤ dt) (hmax : dt < TMSECS_PER_DAY) (hlow : 0 ≤ tt)
    (hhigh : tt < TMSECS_PER_DAY) :
    (screenTimetag td tt).1 % TMSECS_PER_DAY =
      ((screenTimetag td tt).2.tt0 + td.count * dt) % TMSECS_PER_DAY := by
  rw [hrun.call hdt hmax hlow hhigh]
  dsimp only
  split
  · exact Int.sub_emod_right _ _
  · rfl

/-- When the interval divides the day, taking off the intervals of a day takes off days. -/
theorem returned_emod (hdt : 1 ≤ dt) (hmax : dt < TMSECS_PER_DAY) (hlow : 0 ≤ tt)
    (hhigh : tt < TMSECS_PER_DAY) (hday : dt ∣ TMSECS_PER_DAY) :
    (screenTimetag td tt).1 % TMSECS_PER_DAY =
      ((screenTimetag td tt).2.tt0 + n * dt) % TMSECS_PER_DAY := by
  obtain ⟨days, hdays⟩ := hrun.days_count
  have hmul : (n : ℤ) * dt = td.count * dt + TMSECS_PER_DAY * days := by
    calc (n : ℤ) * dt = td.count * dt + (n - td.count) * dt := by ring
      _ = td.count * dt + TMSECS_PER_DAY / dt * dt * days := by rw [hdays]; ring
      _ = td.count * dt + TMSECS_PER_DAY * days := by rw [Int.ediv_mul_cancel hday]
  rw [hrun.returned_emod_count hdt hmax hlow hhigh, hmul, ← add_assoc,
    Int.add_mul_emod_self_left]

/-- One interval after those of a day, the count is one. -/
theorem count_of_day (hdt : 1 ≤ dt) (hmax : dt < TMSECS_PER_DAY)
    (hn : (n : ℤ) = TMSECS_PER_DAY / dt + 1) : td.count = 1 := by
  obtain ⟨hone, hcount⟩ := hrun.count_bounds hdt hmax
  obtain ⟨days, hdays⟩ := hrun.days_count
  rw [hn] at hdays
  have hpos : 0 < days := by
    by_contra hnot
    have : TMSECS_PER_DAY / dt * days ≤ 0 :=
      Int.mul_nonpos_of_nonneg_of_nonpos (by omega) (by omega)
    omega
  have hle : TMSECS_PER_DAY / dt * 1 ≤ TMSECS_PER_DAY / dt * days :=
    Int.mul_le_mul_of_nonneg_left (by omega) (by omega)
  omega

end Running

/-! ## The series -/

theorem mul_ediv_tmsec {deltaTUsec : ℤ} (hwhole : 100 ∣ deltaTUsec) (n : ℕ) :
    n * deltaTUsec / USECS_PER_TMSEC = n * (deltaTUsec / 100) :=
  Int.mul_ediv_assoc _ hwhole

/-- If the intervals of a day make no difference, they are a day. -/
theorem dvd_of_perDay {start : ℤ} {perDay : ℕ} (hdt : 1 ≤ dt) (hmax : dt < TMSECS_PER_DAY)
    (hperDay : (perDay : ℤ) = TMSECS_PER_DAY / dt)
    (hmod : (start + (perDay + 1 : ℕ) * dt) % TMSECS_PER_DAY = (start + 1 * dt) % TMSECS_PER_DAY) :
    dt ∣ TMSECS_PER_DAY := by
  have hone : (1 : ℤ) ≤ perDay := by
    rw [hperDay]
    exact (mul_le_day_iff hdt).mp (by omega)
  have hle : perDay * dt ≤ TMSECS_PER_DAY := (mul_le_day_iff hdt).mpr (le_of_eq hperDay)
  have hpos : 0 < perDay * dt := Int.mul_pos (by omega) (by omega)
  have hdiff : TMSECS_PER_DAY ∣ perDay * dt := by
    have hzero := Int.emod_eq_emod_iff_emod_sub_eq_zero.mp hmod
    convert Int.dvd_of_emod_eq_zero hzero using 1
    push_cast
    ring
  have hday : TMSECS_PER_DAY ≤ perDay * dt := Int.le_of_dvd hpos hdiff
  exact ⟨perDay, by rw [mul_comm]; omega⟩

section Series

variable (td : ScreenTimetagData) {deltaTUsec adjustUsec : ℤ} (hdelta : 100 ≤ deltaTUsec)
  (hadjust : deltaTUsec ≤ adjustUsec) (hint : adjustUsec < 2 ^ 31)

include hdelta hadjust hint

theorem init_eq : screenTimetagInit td deltaTUsec adjustUsec =
    { td with
      nptsCalc := adjustUsec / deltaTUsec
      dtTmsec := deltaTUsec / 100
      dtUsec := deltaTUsec % 100 * 100
      samplesPerDay := TMSECS_PER_DAY / (deltaTUsec / 100)
      nDt := -99999 } := by
  have hcalc : toUInt32 (adjustUsec / deltaTUsec) = adjustUsec / deltaTUsec := by
    have hle : adjustUsec / deltaTUsec ≤ adjustUsec := Int.ediv_le_self _ (by omega)
    exact toUInt32_of_range (Int.ediv_nonneg (by omega) (by omega)) (by omega)
  have hdt : toUInt32 (deltaTUsec / 100) = deltaTUsec / 100 :=
    toUInt32_of_range (by omega) (by omega)
  have husec : toUInt32 (deltaTUsec % 100 * USECS_PER_TMSEC) = deltaTUsec % 100 * 100 := by
    unfold USECS_PER_TMSEC
    exact toUInt32_of_range (by omega) (by omega)
  have hday : toUInt32 (TMSECS_PER_DAY / (deltaTUsec / 100)) =
      TMSECS_PER_DAY / (deltaTUsec / 100) := by
    have hle : TMSECS_PER_DAY / (deltaTUsec / 100) ≤ TMSECS_PER_DAY :=
      Int.ediv_le_self _ (by decide)
    refine toUInt32_of_range (Int.ediv_nonneg (by decide) (by omega)) ?_
    unfold TMSECS_PER_DAY at *
    omega
  have hdiv : deltaTUsec.tdiv USECS_PER_TMSEC = deltaTUsec / 100 :=
    Int.tdiv_eq_ediv_of_nonneg (by omega)
  have hmod : deltaTUsec.tmod USECS_PER_TMSEC = deltaTUsec % 100 :=
    Int.tmod_eq_emod_of_nonneg (by omega)
  have hpts : adjustUsec.tdiv deltaTUsec = adjustUsec / deltaTUsec :=
    Int.tdiv_eq_ediv_of_nonneg (by omega)
  have hsamples : TMSECS_PER_DAY.tdiv (deltaTUsec / 100) = TMSECS_PER_DAY / (deltaTUsec / 100) :=
    Int.tdiv_eq_ediv_of_nonneg (by decide)
  simp only [screenTimetagInit, hdiv, hmod, hpts, hdt, hsamples, hcalc, hday, husec]

/-- The data after the first point. -/
theorem after_one (tags : ℕ → ℤ) : (screenTimetagInit td deltaTUsec adjustUsec).after tags 1 =
    { dtTmsec := deltaTUsec / 100
      dtUsec := deltaTUsec % 100 * 100
      nptsCalc := adjustUsec / deltaTUsec
      tt0 := tags 0
      nDt := 1
      samplesPerDay := TMSECS_PER_DAY / (deltaTUsec / 100)
      nmin := 0
      nptsMin := 10
      tdiffmin := TMSECS_PER_SEC } := by
  rw [after_succ, after_zero, init_eq td hdelta hadjust hint]
  rfl

theorem returned_zero (tags : ℕ → ℤ) :
    (screenTimetagInit td deltaTUsec adjustUsec).returned tags 0 = tags 0 := by
  rw [returned, after_zero, init_eq td hdelta hadjust hint]
  rfl

/-- The second tag carries a hundred times what is below a tenth of a millisecond. -/
theorem returned_one {tags : ℕ → ℤ} (htags : ∀ n, 0 ≤ tags n ∧ tags n < TMSECS_PER_DAY) :
    (screenTimetagInit td deltaTUsec adjustUsec).returned tags 1 % TMSECS_PER_DAY =
        (tags 0 + (deltaTUsec / 100 + deltaTUsec % 100)) % TMSECS_PER_DAY ∧
      ((screenTimetagInit td deltaTUsec adjustUsec).after tags 2).tt0 = tags 0 := by
  obtain ⟨hlow, hhigh⟩ := htags 0
  rw [returned, after_succ _ _ 1, after_one td hdelta hadjust hint]
  generalize htd : ScreenTimetagData.mk _ _ _ _ _ _ _ _ _ = second
  have htoff : second.toff = deltaTUsec / 100 + deltaTUsec % 100 := by
    rw [← htd]
    have husec : toUInt32 (deltaTUsec % 100 * 100) / USECS_PER_TMSEC = deltaTUsec % 100 := by
      rw [toUInt32_of_range (by omega) (by omega)]
      exact Int.mul_ediv_cancel _ (by decide)
    have htmsec : toUInt32 (deltaTUsec / 100) = deltaTUsec / 100 :=
      toUInt32_of_range (by omega) (by omega)
    simp only [toff, one_mul, husec, htmsec]
    exact toUInt32_of_range (by omega) (by omega)
  have hback : second.rollBack = second := by
    unfold rollBack
    rw [htoff, if_neg (by unfold TMSECS_PER_DAY; omega)]
  have hstart : (second.adjust (second.tterr (tags 1))).wrapStart.tt0 = tags 0 := by
    have hnmin : toInt32 (0 + 1) ≠ 10 := by decide
    rw [← htd]
    simp only [adjust, if_neg hnmin, wrapStart]
    rw [if_neg (by omega)]
  have hfirst : second.nDt ≠ -99999 := by simp [← htd]
  simp only [screenTimetag, if_neg hfirst, hback, hstart, htoff, and_true]
  unfold TMSECS_PER_DAY at *
  rw [toInt32_of_range (by omega) (by omega)]
  split
  · rw [toInt32_of_range (by omega) (by omega), Int.sub_emod_right]
  · rfl

theorem running_one {tags : ℕ → ℤ} (htags : ∀ n, 0 ≤ tags n ∧ tags n < TMSECS_PER_DAY)
    (hwhole : 100 ∣ deltaTUsec) :
    Running (deltaTUsec / 100) 1 ((screenTimetagInit td deltaTUsec adjustUsec).after tags 1) := by
  have hcalc : 1 ≤ adjustUsec / deltaTUsec :=
    (Int.le_ediv_iff_mul_le (by omega)).mpr (by omega)
  have hcalc' : adjustUsec / deltaTUsec ≤ adjustUsec := Int.ediv_le_self _ (by omega)
  obtain ⟨hlow, hhigh⟩ := htags 0
  have hday : 0 ≤ TMSECS_PER_DAY / (deltaTUsec / 100) :=
    Int.ediv_nonneg (by decide) (by omega)
  rw [after_one td hdelta hadjust hint]
  constructor <;> dsimp only
  case dtUsec_eq => omega
  case nDt_le => omega
  case days => simp
  case tt0_ge => unfold TMSECS_PER_DAY; omega
  case tt0_lt => exact hhigh
  case nptsCalc_pos => omega
  case nptsCalc_lt => omega
  all_goals decide

/-- As long as no tag is before midnight, the data are those of the call. -/
theorem running_after {tags : ℕ → ℤ} (htags : ∀ n, 0 ≤ tags n ∧ tags n < TMSECS_PER_DAY)
    (hwhole : 100 ∣ deltaTUsec) (n : ℕ) (hnot : ∀ k, 1 ≤ k → k ≤ n →
      ((screenTimetagInit td deltaTUsec adjustUsec).after tags k).NotBefore (tags k)) :
    Running (deltaTUsec / 100) (n + 1)
      ((screenTimetagInit td deltaTUsec adjustUsec).after tags (n + 1)) := by
  induction n with
  | zero => exact running_one td hdelta hadjust hint htags hwhole
  | succ n ih =>
      have hrun := ih fun k hone hk => hnot k hone (by omega)
      rw [after_succ]
      refine hrun.next (by omega) ?_ (htags _).1 (htags _).2 (hnot _ (by omega) (le_refl _))
      unfold TMSECS_PER_DAY
      omega

/-- **The series is regular** exactly if the interval is in tenths of milliseconds and divides the
day, and no tag comes out before midnight. -/
theorem regular_iff {tags : ℕ → ℤ} (htags : ∀ n, 0 ≤ tags n ∧ tags n < TMSECS_PER_DAY) :
    (screenTimetagInit td deltaTUsec adjustUsec).Regular tags deltaTUsec ↔
      100 ∣ deltaTUsec ∧ deltaTUsec / 100 ∣ TMSECS_PER_DAY ∧
        ∀ n, 1 ≤ n →
          ((screenTimetagInit td deltaTUsec adjustUsec).after tags n).NotBefore (tags n) := by
  have hdt : 1 ≤ deltaTUsec / 100 := by omega
  have hmax : deltaTUsec / 100 < TMSECS_PER_DAY := by unfold TMSECS_PER_DAY; omega
  constructor
  · intro hregular
    have hwhole : 100 ∣ deltaTUsec := by
      -- the second tag
      have hone := hregular.returned_eq 1 (le_refl 1)
      obtain ⟨hsecond, hstart⟩ := returned_one td hdelta hadjust hint htags
      rw [hstart] at hone
      rw [hone, Int.emod_emod] at hsecond
      unfold TMSECS_PER_DAY USECS_PER_TMSEC at hsecond
      push_cast at hsecond
      rw [one_mul] at hsecond
      omega
    have hnot : ∀ n, 1 ≤ n →
        ((screenTimetagInit td deltaTUsec adjustUsec).after tags n).NotBefore (tags n) := by
      intro n
      induction n using Nat.strong_induction_on with
      | _ n ih =>
          intro hn
          obtain ⟨m, rfl⟩ : ∃ m, n = m + 1 := ⟨n - 1, by omega⟩
          have hrun := running_after td hdelta hadjust hint htags hwhole m
            fun k hone hk => ih k (by omega) hone
          apply (hrun.returned_nonneg_iff hdt hmax (htags _).1 (htags _).2).mp
          exact (hregular.in_day (m + 1)).1
    refine ⟨hwhole, ?_, hnot⟩
    -- one interval after those of a day
    obtain ⟨perDay, hperDay⟩ : ∃ k : ℕ, (k : ℤ) = TMSECS_PER_DAY / (deltaTUsec / 100) :=
      ⟨_, Int.toNat_of_nonneg (Int.ediv_nonneg (by decide) (by omega))⟩
    have hrun := running_after td hdelta hadjust hint htags hwhole perDay
      fun k hone _ => hnot k hone
    have hcount := hrun.count_of_day hdt hmax (by push_cast; omega)
    have hret := hregular.returned_eq (perDay + 1) (by omega)
    have hmod := hrun.returned_emod_count hdt hmax (htags (perDay + 1)).1 (htags (perDay + 1)).2
    rw [hcount, ← after_succ, ← returned, hret, Int.emod_emod, mul_ediv_tmsec hwhole] at hmod
    exact dvd_of_perDay hdt hmax hperDay hmod
  · rintro ⟨hwhole, hday, hnot⟩
    have hrun : ∀ n, 1 ≤ n → Running (deltaTUsec / 100) n
        ((screenTimetagInit td deltaTUsec adjustUsec).after tags n) := by
      intro n hn
      obtain ⟨m, rfl⟩ : ∃ m, n = m + 1 := ⟨n - 1, by omega⟩
      exact running_after td hdelta hadjust hint htags hwhole m fun k hone _ => hnot k hone
    have hin : ∀ n, 1 ≤ n → 0 ≤ (screenTimetagInit td deltaTUsec adjustUsec).returned tags n ∧
        (screenTimetagInit td deltaTUsec adjustUsec).returned tags n < TMSECS_PER_DAY := by
      intro n hn
      exact ⟨((hrun n hn).returned_nonneg_iff hdt hmax (htags n).1 (htags n).2).mpr (hnot n hn),
        (hrun n hn).returned_lt hdt hmax (htags n).1 (htags n).2⟩
    constructor
    · intro n hn
      rw [mul_ediv_tmsec hwhole, after_succ,
        ← (hrun n hn).returned_emod hdt hmax (htags n).1 (htags n).2 hday]
      exact (Int.emod_eq_of_lt (hin n hn).1 (hin n hn).2).symm
    · intro n
      cases n with
      | zero =>
          rw [returned_zero td hdelta hadjust hint]
          exact htags 0
      | succ n => exact hin (n + 1) (by omega)

end Series

/-! ## Two series -/

/-- Data that nothing has been done with. -/
def blank : ScreenTimetagData :=
  { dtTmsec := 0, dtUsec := 0, nptsCalc := 0, tt0 := 0, nDt := 0, samplesPerDay := 0, nmin := 0
    nptsMin := 0, tdiffmin := 0 }

/-- Tags that come at their times, every ten milliseconds. -/
def onTime (n : ℕ) : ℤ := 100 * n % TMSECS_PER_DAY

theorem onTime_bounds (n : ℕ) : 0 ≤ onTime n ∧ onTime n < TMSECS_PER_DAY := by
  unfold onTime TMSECS_PER_DAY
  omega

theorem late_onTime (hrun : Running 100 n td) (htt0 : td.tt0 = 0) : td.late (onTime n) = 0 := by
  obtain ⟨hone, hcount⟩ := hrun.count_bounds (by decide) (by decide)
  obtain ⟨days, hdays⟩ := hrun.days_count
  have hperDay : TMSECS_PER_DAY / 100 = 8640000 := by decide
  rw [hperDay] at hcount hdays
  unfold late expected onTime
  rw [hrun.dtTmsec_eq, htt0]
  unfold TMSECS_PER_DAY
  split
  · omega
  · split <;> omega

theorem shift_onTime (hrun : Running 100 n td) (htt0 : td.tt0 = 0) (hmin : 0 ≤ td.tdiffmin) :
    td.shift (onTime n) = 0 := by
  unfold shift
  rw [late_onTime hrun htt0]
  split <;> omega

theorem notBefore_onTime (hrun : Running 100 n td) (htt0 : td.tt0 = 0) (hmin : 0 ≤ td.tdiffmin) :
    td.NotBefore (onTime n) := by
  obtain ⟨hone, -⟩ := hrun.count_bounds (by decide) (by decide)
  unfold NotBefore expected
  rw [shift_onTime hrun htt0 hmin, htt0, hrun.dtTmsec_eq]
  omega

/-- The start stays where it was. -/
theorem after_onTime (n : ℕ) :
    Running 100 (n + 1) ((screenTimetagInit blank 10000 1000000).after onTime (n + 1)) ∧
      ((screenTimetagInit blank 10000 1000000).after onTime (n + 1)).tt0 = 0 ∧
      0 ≤ ((screenTimetagInit blank 10000 1000000).after onTime (n + 1)).tdiffmin := by
  induction n with
  | zero =>
      have hdelta : (100 : ℤ) ≤ 10000 := by decide
      have hadjust : (10000 : ℤ) ≤ 1000000 := by decide
      have hint : (1000000 : ℤ) < 2 ^ 31 := by decide
      exact ⟨running_one blank hdelta hadjust hint onTime_bounds (by decide), by decide, by decide⟩
  | succ n ih =>
      obtain ⟨hrun, htt0, hmin⟩ := ih
      obtain ⟨hlow, hhigh⟩ := onTime_bounds (n + 1)
      rw [after_succ]
      refine ⟨hrun.next (by decide) (by decide) hlow hhigh (notBefore_onTime hrun htt0 hmin), ?_⟩
      rw [hrun.call (by decide) (by decide) hlow hhigh]
      dsimp only
      constructor
      · unfold nextStart
        rw [shift_onTime hrun htt0 hmin, htt0]
        decide
      · rw [late_onTime hrun htt0]
        unfold TMSECS_PER_SEC
        split <;> omega

theorem regular_onTime : (screenTimetagInit blank 10000 1000000).Regular onTime 10000 := by
  apply (regular_iff blank (by decide) (by decide) (by decide) onTime_bounds).mpr
  refine ⟨by decide, by decide, ?_⟩
  intro n hn
  obtain ⟨m, rfl⟩ : ∃ m, n = m + 1 := ⟨n - 1, by omega⟩
  obtain ⟨hrun, htt0, hmin⟩ := after_onTime m
  exact notBefore_onTime hrun htt0 hmin

/-- An interval of 150 microseconds: the second tag is 5.1 milliseconds after the first. -/
theorem not_regular_fraction :
    ¬ (screenTimetagInit blank 150 1500).Regular (fun n => 3 * n / 2 % TMSECS_PER_DAY) 150 := by
  intro hregular
  have hone := hregular.returned_eq 1 (le_refl 1)
  revert hone
  decide +kernel

end ScreenTimetagData

end Nidas.Linux
