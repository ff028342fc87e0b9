import Nidas.Core.SampleHeader
import Nidas.Lib.MachineInt
import Nidas.Lib.Rounding
import Nidas.Util.UTime

/-!
# Adjusting time tags

The samples of a sensor with a fixed rate are tagged when they are read, which is always too late.
A `TimetagAdjuster` replaces the tags by equally spaced ones: a number of intervals from a zero
time.  At the end of a window of some samples it compares the two, moves the zero time by the
smallest latency that it saw and improves its estimate of the interval.

The estimates are of type `double` in the source, and exact here.  Counters and latencies have
the integers of the source.  What is only counted for a message is left out.
-/

namespace Nidas.Core

open Lib Util

/-! ## Parameters -/

/-- `INT_MAX` -/
def intMax : ℤ := 2 ^ 31 - 1

/-- `TimetagAdjuster::Parameters` -/
structure AdjusterParams where
  bigGapUsec : ℤ
  nAdj : ℕ
  nAvg : ℕ
  dtLimitFraction : ℚ
  maxConsecBadDt : ℤ
  latencyWarnDt : ℚ
  maxConsecNegLatency : ℤ
  deriving DecidableEq, Repr

/-- `TimetagAdjuster::Parameters::Parameters`.  The fraction is 0.3 as a `float`. -/
def AdjusterParams.ofRate (rate : ℚ) : AdjusterParams where
  bigGapUsec := 5 * usecsPerSec
  nAdj := (toUInt32 (max 5 (toInt32 ⌊rate⌋))).toNat
  nAvg := (toUInt32 (toInt32 ⌊60 * rate⌋)).toNat
  dtLimitFraction := 5033165 / 2 ^ 24
  maxConsecBadDt := 5
  latencyWarnDt := 1 / 2
  maxConsecNegLatency := 5

/-! ## The adjuster -/

/-- The members of a `TimetagAdjuster`. -/
structure TimetagAdjuster where
  params : AdjusterParams
  dtUsecConfig : ℚ
  ntotalPts : ℕ := 0
  ttlast : ℤ := longLongMin
  tt0 : ℤ := longLongMin
  nDt : ℕ := 0
  ttnDt0 : ℤ := longLongMin
  dtUsecAvg : ℚ
  dtUsecLowLimit : ℚ
  dtUsecHighLimit : ℚ
  nDtLow : ℕ := 0
  nDtHigh : ℕ := 0
  maxConsecLow : ℤ := 0
  maxConsecHigh : ℤ := 0
  latencyAdjUsec : ℤ := intMax
  latencyLast : ℤ := 0
  ttAdjLast : ℤ := longLongMin
  nConsecNegLatency : ℤ := 0
  deriving DecidableEq, Repr

namespace TimetagAdjuster

/-- `TimetagAdjuster::TimetagAdjuster` -/
def create (rate : ℚ) : TimetagAdjuster where
  params := AdjusterParams.ofRate rate
  dtUsecConfig := usecsPerSec / rate
  dtUsecAvg := usecsPerSec / rate
  dtUsecLowLimit := usecsPerSec / rate * (1 - (AdjusterParams.ofRate rate).dtLimitFraction)
  dtUsecHighLimit := usecsPerSec / rate * (1 + (AdjusterParams.ofRate rate).dtLimitFraction)

/-- The limits are adjusted in `screenDt`: the interval is taken for the configured one. -/
def acceptDt (adj : TimetagAdjuster) (dtUsec : ℚ) : TimetagAdjuster :=
  { adj with
    dtUsecAvg := dtUsec
    dtUsecConfig := dtUsec
    dtUsecLowLimit := dtUsec * (1 - adj.params.dtLimitFraction)
    dtUsecHighLimit := dtUsec * (1 + adj.params.dtLimitFraction) }

/-- `TimetagAdjuster::screenDt`, with whether the interval is to be skipped. -/
def screenDt (adj : TimetagAdjuster) (dtUsec : ℚ) : TimetagAdjuster × Bool :=
  if dtUsec < adj.dtUsecLowLimit then
    let low := { adj with maxConsecHigh := 0, maxConsecLow := toInt32 (adj.maxConsecLow + 1) }
    let nDtLow := (adj.nDtLow + 1) % 2 ^ 32
    if low.maxConsecLow > adj.params.maxConsecBadDt then
      ({ low.acceptDt dtUsec with maxConsecLow := 0, nDtLow := nDtLow }, false)
    else if adj.nDtLow % 100 = 0 then ({ low with nDtLow := nDtLow }, true)
    else ({ low with nDtLow := nDtLow }, false)
  else if dtUsec > adj.dtUsecHighLimit then
    let high := { adj with maxConsecLow := 0, maxConsecHigh := toInt32 (adj.maxConsecHigh + 1) }
    let nDtHigh := (adj.nDtHigh + 1) % 2 ^ 32
    if high.maxConsecHigh > adj.params.maxConsecBadDt then
      ({ high.acceptDt dtUsec with maxConsecHigh := 0, nDtHigh := nDtHigh }, false)
    else if adj.nDtHigh % 100 = 0 then ({ high with nDtHigh := nDtHigh }, true)
    else ({ high with nDtHigh := nDtHigh }, false)
  else ({ adj with maxConsecLow := 0, maxConsecHigh := 0 }, false)

/-- The average interval of the window, an `int`. -/
def windowDt (adj : TimetagAdjuster) (tt : ℤ) : ℤ :=
  toInt32 ((tt - adj.ttnDt0 + (adj.nDt / 2 : ℕ)).tdiv adj.nDt)

/-- The divisor of the running average. -/
def divisor (adj : TimetagAdjuster) : ℕ := min adj.params.nAvg adj.ntotalPts

/-- The running average with the interval of a window.  The weight of the old average and the
product of the interval with the number of samples are of type `unsigned int`. -/
def foldDt (adj : TimetagAdjuster) (dtUsec : ℤ) : TimetagAdjuster :=
  { adj with
    dtUsecAvg :=
      (adj.dtUsecAvg * toUInt32 (adj.divisor - adj.nDt) + toUInt32 (dtUsec * adj.nDt)) /
        adj.divisor }

/-- The window is screened, and the running average is updated unless it is to be skipped. -/
def updateDt (adj : TimetagAdjuster) (tt : ℤ) : TimetagAdjuster :=
  let dtUsec := adj.windowDt tt
  let (adj, skipdt) := adj.screenDt dtUsec
  if skipdt then adj else adj.foldDt dtUsec

/-- The end of a window in `adjust`. -/
def endWindow (adj : TimetagAdjuster) (tt ttAdj : ℤ) : TimetagAdjuster :=
  let adj := adj.updateDt tt
  { adj with
    ttnDt0 := tt
    nDt := 0
    tt0 :=
      if adj.latencyAdjUsec > adj.dtUsecAvg * adj.params.latencyWarnDt then tt
      else ttAdj + adj.latencyAdjUsec
    latencyAdjUsec := intMax }

/-- A new zero time, from which the next window starts. -/
def restart (adj : TimetagAdjuster) (tt : ℤ) : TimetagAdjuster :=
  { adj with ttnDt0 := tt, tt0 := tt, nDt := 0, latencyAdjUsec := intMax, ttAdjLast := tt }

/-- Backwards times are not allowed. -/
def notBackwards (adj : TimetagAdjuster) (ttAdj : ℤ) : ℤ :=
  if ttAdj < adj.ttAdjLast then adj.ttAdjLast + 1 else ttAdj

/-- The part of `adjust` for a negative latency -/
def adjustEarly (adj : TimetagAdjuster) (tt ttAdj latency : ℤ) : TimetagAdjuster × ℤ :=
  let adj := { adj with nConsecNegLatency := toInt32 (adj.nConsecNegLatency + 1) }
  if adj.nConsecNegLatency > adj.params.maxConsecNegLatency then
    ({ adj.restart tt with dtUsecAvg := adj.dtUsecConfig }, tt)
  else
    let ttAdj := adj.notBackwards (ttAdj + latency)
    ({ adj with
        tt0 := adj.tt0 + latency
        latencyLast := latency
        latencyAdjUsec := min latency 0
        ttAdjLast := ttAdj },
      ttAdj)

/-- The members after a latency that is not negative was noted. -/
def noteLatency (adj : TimetagAdjuster) (latency : ℤ) : TimetagAdjuster :=
  { adj with
    nConsecNegLatency := 0
    latencyLast := latency
    latencyAdjUsec := min latency adj.latencyAdjUsec }

/-- Whether the window is at its end, and the latency has ceased improving. -/
def windowEnds (adj : TimetagAdjuster) (latency : ℤ) : Prop :=
  adj.params.nAdj ≤ adj.nDt ∧
    (0 ≤ toInt32 (latency - adj.latencyLast) ∨ adj.params.nAdj * 2 % 2 ^ 32 < adj.nDt)

instance (adj : TimetagAdjuster) (latency : ℤ) : Decidable (adj.windowEnds latency) :=
  inferInstanceAs (Decidable (_ ∧ _))

/-- The part of `adjust` for a latency that is not negative -/
def adjustLate (adj : TimetagAdjuster) (tt ttAdj latency : ℤ) : TimetagAdjuster × ℤ :=
  let noted := adj.noteLatency latency
  let next := if adj.windowEnds latency then noted.endWindow tt ttAdj else noted
  let ttAdj := next.notBackwards ttAdj
  ({ next with ttAdjLast := ttAdj }, ttAdj)

/-- A further sample was counted. -/
def counted (adj : TimetagAdjuster) : TimetagAdjuster :=
  { adj with ntotalPts := (adj.ntotalPts + 1) % 2 ^ 32 }

/-- A further interval was counted. -/
def withInterval (adj : TimetagAdjuster) (tt : ℤ) : TimetagAdjuster :=
  { adj with ttlast := tt, nDt := (adj.nDt + 1) % 2 ^ 32 }

/-- The time that is extrapolated from the zero time. -/
def extrapolated (adj : TimetagAdjuster) : ℤ := rint (adj.tt0 + adj.nDt * adj.dtUsecAvg)

/-- The estimated latency, an `int`. -/
def latency (adj : TimetagAdjuster) (tt : ℤ) : ℤ := toInt32 (tt - adj.extrapolated)

/-- `TimetagAdjuster::adjust` -/
def adjust (adj : TimetagAdjuster) (tt : ℤ) : TimetagAdjuster × ℤ :=
  let adj := adj.counted
  if adj.ntotalPts = 1 then
    ({ adj with ttnDt0 := tt, tt0 := tt, ttlast := tt, ttAdjLast := tt }, tt)
  else if tt - adj.ttlast > adj.params.bigGapUsec then
    ({ adj with ttlast := tt }.restart tt, tt)
  else
    let adj := adj.withInterval tt
    if adj.latency tt < 0 then adj.adjustEarly tt adj.extrapolated (adj.latency tt)
    else adj.adjustLate tt adj.extrapolated (adj.latency tt)

/-! ## What a call can do -/

variable {adj : TimetagAdjuster} {tt : ℤ}

/-- The cases of a call: the first sample, a gap, an early sample for which the adjuster starts
again or shifts its zero time, and a late sample inside of a window or at its end. -/
theorem adjust_elim {motive : TimetagAdjuster × ℤ → Prop} (adj : TimetagAdjuster) (tt : ℤ)
    (first : adj.counted.ntotalPts = 1 →
      motive ({ adj.counted with ttnDt0 := tt, tt0 := tt, ttlast := tt, ttAdjLast := tt }, tt))
    (gap : adj.counted.ntotalPts ≠ 1 → adj.params.bigGapUsec < tt - adj.ttlast →
      motive ({ adj.counted with ttlast := tt }.restart tt, tt))
    (again : ∀ next latency, adj.counted.ntotalPts ≠ 1 →
      tt - adj.ttlast ≤ adj.params.bigGapUsec → next = adj.counted.withInterval tt →
      latency = next.latency tt → latency < 0 →
      adj.params.maxConsecNegLatency < toInt32 (adj.nConsecNegLatency + 1) →
      motive ({ { next with nConsecNegLatency := toInt32 (adj.nConsecNegLatency + 1) }.restart tt
        with dtUsecAvg := adj.dtUsecConfig }, tt))
    (shift : ∀ next latency ttAdj, adj.counted.ntotalPts ≠ 1 →
      tt - adj.ttlast ≤ adj.params.bigGapUsec → next = adj.counted.withInterval tt →
      latency = next.latency tt → latency < 0 →
      toInt32 (adj.nConsecNegLatency + 1) ≤ adj.params.maxConsecNegLatency →
      ttAdj = next.notBackwards (next.extrapolated + latency) →
      motive ({ next with
        nConsecNegLatency := toInt32 (adj.nConsecNegLatency + 1)
        tt0 := adj.tt0 + latency
        latencyLast := latency
        latencyAdjUsec := min latency 0
        ttAdjLast := ttAdj }, ttAdj))
    (inside : ∀ next latency ttAdj, adj.counted.ntotalPts ≠ 1 →
      tt - adj.ttlast ≤ adj.params.bigGapUsec → next = adj.counted.withInterval tt →
      latency = next.latency tt → 0 ≤ latency → ¬ next.windowEnds latency →
      ttAdj = next.notBackwards next.extrapolated →
      motive ({ next.noteLatency latency with ttAdjLast := ttAdj }, ttAdj))
    (ends : ∀ next latency ttAdj, adj.counted.ntotalPts ≠ 1 →
      tt - adj.ttlast ≤ adj.params.bigGapUsec → next = adj.counted.withInterval tt →
      latency = next.latency tt → 0 ≤ latency → next.windowEnds latency →
      ttAdj = ((next.noteLatency latency).endWindow tt next.extrapolated).notBackwards
        next.extrapolated →
      motive ({ (next.noteLatency latency).endWindow tt next.extrapolated with
        ttAdjLast := ttAdj }, ttAdj)) :
    motive (adj.adjust tt) := by
  unfold adjust
  dsimp only
  split
  · next hfirst => exact first hfirst
  · next hfirst =>
      split
      · next hgap => exact gap hfirst hgap
      · next hgap =>
          split
          · next hlatency =>
              unfold adjustEarly
              dsimp only
              split
              · next hconsec => exact again _ _ hfirst (not_lt.mp hgap) rfl rfl hlatency hconsec
              · next hconsec =>
                  exact shift _ _ _ hfirst (not_lt.mp hgap) rfl rfl hlatency (not_lt.mp hconsec) rfl
          · next hlatency =>
              unfold adjustLate
              dsimp only
              split
              · next hends =>
                  exact ends _ _ _ hfirst (not_lt.mp hgap) rfl rfl (not_lt.mp hlatency) hends rfl
              · next hends =>
                  exact inside _ _ _ hfirst (not_lt.mp hgap) rfl rfl (not_lt.mp hlatency) hends rfl

/-- Screening changes the counters, and accepts the interval as the configured one or leaves
the estimates as they are. -/
theorem screenDt_eq (adj : TimetagAdjuster) (dtUsec : ℚ) :
    ∃ nDtLow nDtHigh maxConsecLow maxConsecHigh, ∃ screened ∈ [adj, adj.acceptDt dtUsec],
      (adj.screenDt dtUsec).1 =
        { screened with
          nDtLow := nDtLow
          nDtHigh := nDtHigh
          maxConsecLow := maxConsecLow
          maxConsecHigh := maxConsecHigh } := by
  unfold screenDt
  split
  · dsimp only
    split
    · exact ⟨_, _, _, _, adj.acceptDt dtUsec, by simp, rfl⟩
    · split
      · exact ⟨_, _, _, _, adj, by simp, rfl⟩
      · exact ⟨_, _, _, _, adj, by simp, rfl⟩
  · split
    · dsimp only
      split
      · exact ⟨_, _, _, _, adj.acceptDt dtUsec, by simp, rfl⟩
      · split
        · exact ⟨_, _, _, _, adj, by simp, rfl⟩
        · exact ⟨_, _, _, _, adj, by simp, rfl⟩
    · exact ⟨_, _, _, _, adj, by simp, rfl⟩

/-- An update changes nothing but the estimates and the counters of the screening. -/
theorem updateDt_frame (adj : TimetagAdjuster) (tt : ℤ) :
    ∃ avg config low high nDtLow nDtHigh maxConsecLow maxConsecHigh,
      adj.updateDt tt =
        { adj with
          dtUsecAvg := avg
          dtUsecConfig := config
          dtUsecLowLimit := low
          dtUsecHighLimit := high
          nDtLow := nDtLow
          nDtHigh := nDtHigh
          maxConsecLow := maxConsecLow
          maxConsecHigh := maxConsecHigh } := by
  obtain ⟨nDtLow, nDtHigh, maxConsecLow, maxConsecHigh, screened, hmem, hscreen⟩ :=
    adj.screenDt_eq (adj.windowDt tt)
  unfold updateDt
  dsimp only
  rw [hscreen]
  rw [List.mem_pair] at hmem
  rcases hmem with rfl | rfl
  · split
    · exact ⟨_, _, _, _, _, _, _, _, rfl⟩
    · exact ⟨_, _, _, _, _, _, _, _, rfl⟩
  · split
    · exact ⟨_, _, _, _, _, _, _, _, rfl⟩
    · exact ⟨_, _, _, _, _, _, _, _, rfl⟩

/-! ## The end of a window -/

/-- The adjuster as it is when a window is screened, if the call gets there. -/
def atWindowEnd (adj : TimetagAdjuster) (tt : ℤ) : Option TimetagAdjuster :=
  let next := adj.counted.withInterval tt
  if adj.counted.ntotalPts ≠ 1 ∧ tt - adj.ttlast ≤ adj.params.bigGapUsec ∧
      0 ≤ next.latency tt ∧ next.windowEnds (next.latency tt) then
    some (next.noteLatency (next.latency tt))
  else none

/-- The window has the members of the adjuster that are used for screening. -/
theorem atWindowEnd_eq {window : TimetagAdjuster} (hwindow : adj.atWindowEnd tt = some window) :
    window = (adj.counted.withInterval tt).noteLatency
        ((adj.counted.withInterval tt).latency tt) ∧
      adj.counted.ntotalPts ≠ 1 ∧ tt - adj.ttlast ≤ adj.params.bigGapUsec ∧
      (adj.counted.withInterval tt).windowEnds ((adj.counted.withInterval tt).latency tt) := by
  unfold atWindowEnd at hwindow
  dsimp only at hwindow
  split at hwindow
  · next hends => exact ⟨(Option.some.inj hwindow).symm, hends.1, hends.2.1, hends.2.2.2⟩
  · cases hwindow

/-- A call that gets to the end of a window leaves the estimates of the update. -/
theorem adjust_of_atWindowEnd {window : TimetagAdjuster}
    (hwindow : adj.atWindowEnd tt = some window) :
    ∃ tt0 ttAdj, (adj.adjust tt).1 =
      { window.updateDt tt with
        ttnDt0 := tt, nDt := 0, tt0 := tt0, latencyAdjUsec := intMax, ttAdjLast := ttAdj } := by
  unfold atWindowEnd at hwindow
  dsimp only at hwindow
  split at hwindow
  · next hends =>
      obtain ⟨hfirst, hgap, hlate, hends⟩ := hends
      cases hwindow
      unfold adjust
      dsimp only
      have hgap : ¬ tt - adj.counted.ttlast > adj.counted.params.bigGapUsec := not_lt.mpr hgap
      rw [if_neg hfirst, if_neg hgap, if_neg (not_lt.mpr hlate)]
      unfold adjustLate
      dsimp only
      rw [if_pos hends]
      exact ⟨_, _, rfl⟩
  · cases hwindow

/-- A call that does not get there leaves the counters of the screening. -/
theorem adjust_of_not_atWindowEnd (hwindow : adj.atWindowEnd tt = none) :
    (adj.adjust tt).1.maxConsecLow = adj.maxConsecLow ∧
      (adj.adjust tt).1.maxConsecHigh = adj.maxConsecHigh := by
  apply adjust_elim (motive := fun result =>
    result.1.maxConsecLow = adj.maxConsecLow ∧ result.1.maxConsecHigh = adj.maxConsecHigh)
  case first =>
    intro _
    exact ⟨rfl, rfl⟩
  case gap =>
    intro _ _
    exact ⟨rfl, rfl⟩
  case again =>
    intro next latency _ _ hnext _ _ _
    subst hnext
    exact ⟨rfl, rfl⟩
  case shift =>
    intro next latency ttAdj _ _ hnext _ _ _ _
    subst hnext
    exact ⟨rfl, rfl⟩
  case inside =>
    intro next latency ttAdj _ _ hnext _ _ _ _
    subst hnext
    exact ⟨rfl, rfl⟩
  case ends =>
    intro next latency ttAdj hfirst hgap hnext hlatency hlate hends _
    subst hnext hlatency
    unfold atWindowEnd at hwindow
    dsimp only at hwindow
    rw [if_pos ⟨hfirst, hgap, hlate, hends⟩] at hwindow
    cases hwindow

/-- The parameters stay as they are. -/
theorem adjust_params : (adj.adjust tt).1.params = adj.params := by
  apply adjust_elim (motive := fun result => result.1.params = adj.params)
  case first =>
    intro _
    rfl
  case gap =>
    intro _ _
    rfl
  case again =>
    intro next latency _ _ hnext _ _ _
    subst hnext
    rfl
  case shift =>
    intro next latency ttAdj _ _ hnext _ _ _ _
    subst hnext
    rfl
  case inside =>
    intro next latency ttAdj _ _ hnext _ _ _ _
    subst hnext
    rfl
  case ends =>
    intro next latency ttAdj _ _ hnext _ _ _ _
    subst hnext
    obtain ⟨_, _, _, _, _, _, _, _, hupdate⟩ := updateDt_frame
      ((adj.counted.withInterval tt).noteLatency latency) tt
    unfold endWindow
    rw [hupdate]
    rfl

end TimetagAdjuster

end Nidas.Core
