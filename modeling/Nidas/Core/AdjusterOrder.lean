import Mathlib.Tactic.FieldSimp
import Nidas.Core.TimetagAdjuster
import Nidas.Lib.Answers

/-!
# Adjusted time tags are in order, and not late

For a rate of at least 1 Hz, and raw time tags that increase, the adjusted tags do not decrease and
none is later than its raw tag.  Both are lost when a counter of the adjuster overflows.

## Strategy

The extrapolated time of the last sample is at most its raw time, up to rounding: this is
`Steady.base`.  Since an interval has at most 5 seconds, the extrapolated time of the next sample is
not so late that its latency does not fit.  A negative latency is then exact, and the shift by it
takes the adjusted tag back to the raw one.

The estimate of the interval stays within 5 seconds, because a window has no more samples than the
divisor of the running average.  This needs a bound for the length of a window: after a late sample
it is at most twice the number of samples of a period, and there are only five early ones in a
row before the adjuster starts again.
-/

namespace Nidas.Core

open Lib Util

/-! ## Parameters -/

section Params

variable {rate : ℚ}

theorem AdjusterParams.floor_bounds (hrate : 1 ≤ rate) (hlimit : 60 * rate < 2 ^ 31) :
    1 ≤ ⌊rate⌋ ∧ 60 * ⌊rate⌋ ≤ ⌊60 * rate⌋ ∧ ⌊60 * rate⌋ < 2 ^ 31 := by
  refine ⟨Int.le_floor.mpr (by exact_mod_cast hrate), Int.le_floor.mpr ?_,
    Int.floor_lt.mpr (by exact_mod_cast hlimit)⟩
  push_cast
  linarith [Int.floor_le rate]

theorem AdjusterParams.nAdj_eq (hrate : 1 ≤ rate) (hlimit : 60 * rate < 2 ^ 31) :
    ((ofRate rate).nAdj : ℤ) = max 5 ⌊rate⌋ := by
  obtain ⟨hone, hsixty, hlt⟩ := floor_bounds hrate hlimit
  change ((toUInt32 (max 5 (toInt32 ⌊rate⌋))).toNat : ℤ) = _
  rw [toInt32_of_range (by omega) (by omega), toUInt32_of_range (by omega) (by omega)]
  omega

theorem AdjusterParams.nAvg_eq (hrate : 1 ≤ rate) (hlimit : 60 * rate < 2 ^ 31) :
    ((ofRate rate).nAvg : ℤ) = ⌊60 * rate⌋ := by
  obtain ⟨hone, hsixty, hlt⟩ := floor_bounds hrate hlimit
  change ((toUInt32 (toInt32 ⌊60 * rate⌋)).toNat : ℤ) = _
  rw [toInt32_of_range (by omega) (by omega), toUInt32_of_range (by omega) (by omega)]
  omega

/-- A window is never longer than the averaging period. -/
theorem AdjusterParams.window_le_nAvg (hrate : 1 ≤ rate) (hlimit : 60 * rate < 2 ^ 31) :
    (ofRate rate).nAdj * 2 + 6 ≤ (ofRate rate).nAvg := by
  have hbounds := floor_bounds hrate hlimit
  have hadj := nAdj_eq hrate hlimit
  have havg := nAvg_eq hrate hlimit
  omega

theorem AdjusterParams.nAvg_lt (hrate : 1 ≤ rate) (hlimit : 60 * rate < 2 ^ 31) :
    (ofRate rate).nAvg < 2 ^ 31 := by
  have hbounds := floor_bounds hrate hlimit
  have havg := nAvg_eq hrate hlimit
  omega

end Params

namespace TimetagAdjuster

variable {adj : TimetagAdjuster} {tt : ℤ} {rate : ℚ}

/-! ## The estimate of the interval -/

/-- The longest interval that is not a gap. -/
def longestDt : ℚ := 5 * usecsPerSec

theorem windowDt_bounds (hpos : 0 < adj.nDt) (hstart : adj.ttnDt0 ≤ tt)
    (hwindow : tt - adj.ttnDt0 ≤ 5 * usecsPerSec * adj.nDt) :
    0 ≤ adj.windowDt tt ∧ adj.windowDt tt ≤ 5 * usecsPerSec := by
  have hquot : 0 ≤ (tt - adj.ttnDt0 + (adj.nDt / 2 : ℕ)) / adj.nDt ∧
      (tt - adj.ttnDt0 + (adj.nDt / 2 : ℕ)) / adj.nDt ≤ 5 * usecsPerSec := by
    refine ⟨Int.ediv_nonneg (by omega) (by omega), ?_⟩
    apply Int.le_of_lt_add_one
    apply Int.ediv_lt_of_lt_mul (by omega)
    unfold usecsPerSec at *
    rw [add_mul]
    omega
  unfold windowDt
  rw [Int.tdiv_eq_ediv_of_nonneg (by omega)]
  unfold usecsPerSec at *
  rw [toInt32_of_range (by omega) (by omega)]
  exact hquot

theorem foldDt_bounds (adj : TimetagAdjuster) {dtUsec : ℤ}
    (havg : 0 ≤ adj.dtUsecAvg ∧ adj.dtUsecAvg ≤ longestDt)
    (hdt : 0 ≤ dtUsec ∧ dtUsec ≤ 5 * usecsPerSec) (hpos : 0 < adj.nDt)
    (hle : adj.nDt ≤ adj.divisor) (hlt : adj.divisor < 2 ^ 32) :
    0 ≤ (adj.foldDt dtUsec).dtUsecAvg ∧ (adj.foldDt dtUsec).dtUsecAvg ≤ longestDt := by
  have hdivisor : (0 : ℚ) < adj.divisor := by exact_mod_cast hpos.trans_le hle
  have hweight : toUInt32 ((adj.divisor : ℤ) - adj.nDt) = (adj.divisor : ℤ) - adj.nDt :=
    toUInt32_of_range (by omega) (by omega)
  have hproduct : (0 : ℤ) ≤ dtUsec * adj.nDt := mul_nonneg hdt.1 (by positivity)
  have hnonneg : (0 : ℚ) ≤ toUInt32 (dtUsec * adj.nDt) := by
    exact_mod_cast toUInt32_nonneg _
  have hfolded : (toUInt32 (dtUsec * adj.nDt) : ℚ) ≤ longestDt * adj.nDt := by
    have hmul : dtUsec * adj.nDt ≤ 5 * usecsPerSec * adj.nDt :=
      mul_le_mul_of_nonneg_right hdt.2 (by positivity)
    have hle := (toUInt32_le_self hproduct).trans hmul
    unfold longestDt
    exact_mod_cast hle
  have hold : (0 : ℚ) ≤ adj.divisor - adj.nDt := by
    rw [sub_nonneg]
    exact_mod_cast hle
  unfold foldDt
  dsimp only
  rw [hweight]
  push_cast
  constructor
  · apply div_nonneg _ hdivisor.le
    exact add_nonneg (mul_nonneg havg.1 hold) hnonneg
  · rw [div_le_iff₀ hdivisor]
    calc adj.dtUsecAvg * (adj.divisor - adj.nDt) + toUInt32 (dtUsec * adj.nDt)
        ≤ longestDt * (adj.divisor - adj.nDt) + longestDt * adj.nDt :=
          add_le_add (mul_le_mul_of_nonneg_right havg.2 hold) hfolded
      _ = longestDt * adj.divisor := by ring

/-- What the end of a window does to the estimates, and that it leaves the rest as it is. -/
theorem updateDt_eq (adj : TimetagAdjuster) (tt : ℤ)
    (havg : 0 ≤ adj.dtUsecAvg ∧ adj.dtUsecAvg ≤ longestDt)
    (hconfig : 0 ≤ adj.dtUsecConfig ∧ adj.dtUsecConfig ≤ longestDt)
    (hdt : 0 ≤ adj.windowDt tt ∧ adj.windowDt tt ≤ 5 * usecsPerSec) (hpos : 0 < adj.nDt)
    (hle : adj.nDt ≤ adj.divisor) (hlt : adj.divisor < 2 ^ 32) :
    ∃ avg config low high nDtLow nDtHigh maxConsecLow maxConsecHigh,
      adj.updateDt tt =
        { adj with
          dtUsecAvg := avg
          dtUsecConfig := config
          dtUsecLowLimit := low
          dtUsecHighLimit := high
          nDtLow := nDtLow
          nDtHigh := nDtHigh
          maxConsecLow := maxConsecLow
          maxConsecHigh := maxConsecHigh } ∧
      (0 ≤ avg ∧ avg ≤ longestDt) ∧ 0 ≤ config ∧ config ≤ longestDt := by
  have hcast : (0 : ℚ) ≤ adj.windowDt tt ∧ (adj.windowDt tt : ℚ) ≤ longestDt := by
    unfold longestDt
    exact ⟨by exact_mod_cast hdt.1, by exact_mod_cast hdt.2⟩
  obtain ⟨nDtLow, nDtHigh, maxConsecLow, maxConsecHigh, screened, hmem, hscreen⟩ :=
    adj.screenDt_eq (adj.windowDt tt)
  -- the estimates after screening are the old ones, or both are the interval of the window
  have hscreened : ∃ avg config low high,
      screened = { adj with
        dtUsecAvg := avg, dtUsecConfig := config, dtUsecLowLimit := low, dtUsecHighLimit := high } ∧
      (0 ≤ avg ∧ avg ≤ longestDt) ∧ 0 ≤ config ∧ config ≤ longestDt := by
    rw [List.mem_pair] at hmem
    rcases hmem with rfl | rfl
    · exact ⟨_, _, _, _, rfl, havg, hconfig⟩
    · exact ⟨_, _, _, _, rfl, hcast, hcast⟩
  obtain ⟨avg, config, low, high, rfl, hnew, hnewConfig⟩ := hscreened
  unfold updateDt
  dsimp only
  split
  · rw [hscreen]
    exact ⟨_, _, _, _, _, _, _, _, rfl, hnew, hnewConfig⟩
  · rw [hscreen]
    exact ⟨_, _, _, _, _, _, _, _, rfl,
      foldDt_bounds { adj with
        dtUsecAvg := avg, dtUsecConfig := config, dtUsecLowLimit := low, dtUsecHighLimit := high,
        nDtLow := nDtLow, nDtHigh := nDtHigh, maxConsecLow := maxConsecLow,
        maxConsecHigh := maxConsecHigh } hnew hdt hpos hle hlt, hnewConfig⟩

/-! ## The invariant -/

/-- The adjuster between two calls, as long as no counter overflows. -/
structure Steady (rate : ℚ) (adj : TimetagAdjuster) : Prop where
  params : adj.params = .ofRate rate
  last : adj.ttAdjLast ≤ adj.ttlast
  base : adj.tt0 + adj.nDt * adj.dtUsecAvg ≤ adj.ttlast + 1 / 2
  avg : 0 ≤ adj.dtUsecAvg ∧ adj.dtUsecAvg ≤ longestDt
  config : 0 ≤ adj.dtUsecConfig ∧ adj.dtUsecConfig ≤ longestDt
  start : adj.ttnDt0 ≤ adj.ttlast
  window : adj.ttlast - adj.ttnDt0 ≤ 5 * usecsPerSec * adj.nDt
  count : adj.nDt ≤ adj.ntotalPts
  consec_nonneg : 0 ≤ adj.nConsecNegLatency
  few : adj.nConsecNegLatency ≤ 5 → adj.nDt ≤ adj.params.nAdj * 2 + adj.nConsecNegLatency
  many : 5 < adj.nConsecNegLatency → adj.nDt = 0

/-- The counters of an adjuster have room for another sample. -/
def CountersFit (adj : TimetagAdjuster) (_tt : ℤ) : Prop :=
  adj.ntotalPts + 1 < 2 ^ 32 ∧ adj.nConsecNegLatency + 1 < 2 ^ 31

theorem Steady.create (hrate : 1 ≤ rate) : Steady rate (create rate) := by
  have hpos : 0 < rate := by linarith
  have hconfig : 0 ≤ (usecsPerSec : ℚ) / rate ∧ (usecsPerSec : ℚ) / rate ≤ longestDt := by
    constructor
    · exact div_nonneg (by norm_num [usecsPerSec]) hpos.le
    · rw [div_le_iff₀ hpos]
      norm_num [longestDt, usecsPerSec]
      linarith
  exact
    { params := rfl
      last := le_refl _
      base := by
        change (longLongMin : ℚ) + (0 : ℕ) * _ ≤ longLongMin + 1 / 2
        norm_num
      avg := hconfig
      config := hconfig
      start := le_refl _
      window := by
        change longLongMin - longLongMin ≤ 5 * usecsPerSec * (0 : ℕ)
        norm_num
      count := le_refl _
      consec_nonneg := le_refl _
      few := fun _ => by
        change ((0 : ℕ) : ℤ) ≤ ((AdjusterParams.ofRate rate).nAdj : ℤ) * 2 + 0
        omega
      many := fun _ => rfl }

/-! ## One call -/

theorem counted_ntotalPts (hfit : adj.CountersFit tt) :
    adj.counted.ntotalPts = adj.ntotalPts + 1 :=
  Nat.mod_eq_of_lt hfit.1

theorem Steady.withInterval_nDt (hsteady : Steady rate adj) (hfit : adj.CountersFit tt) :
    (adj.counted.withInterval tt).nDt = adj.nDt + 1 := by
  apply Nat.mod_eq_of_lt
  have hcount := hsteady.count
  have hroom := hfit.1
  change adj.nDt + 1 < 2 ^ 32
  omega

/-- The sum that is rounded for the extrapolated time. -/
theorem Steady.le_extrapolated (hsteady : Steady rate adj) (hfit : adj.CountersFit tt) :
    (adj.tt0 : ℚ) + (adj.nDt + 1 : ℕ) * adj.dtUsecAvg ≤
      (adj.counted.withInterval tt).extrapolated + 1 / 2 := by
  have hround := le_rint_add_half ((adj.tt0 : ℚ) + (adj.nDt + 1 : ℕ) * adj.dtUsecAvg)
  have hnDt := hsteady.withInterval_nDt hfit
  unfold extrapolated
  rw [hnDt]
  exact hround

/-- The latency takes the extrapolated time back to the raw one, or behind it. -/
theorem Steady.extrapolated_add_latency_le (hsteady : Steady rate adj)
    (hfit : adj.CountersFit tt) (hlater : adj.ttlast < tt) :
    (adj.counted.withInterval tt).extrapolated + (adj.counted.withInterval tt).latency tt ≤ tt := by
  have hbase := hsteady.base
  have havg := hsteady.avg.2
  have hsum : (adj.tt0 : ℚ) + (adj.nDt + 1 : ℕ) * adj.dtUsecAvg ≤
      ((adj.ttlast + 5 * usecsPerSec + 1 : ℤ) : ℚ) := by
    unfold longestDt at havg
    push_cast
    linarith
  have hle : (adj.counted.withInterval tt).extrapolated ≤ adj.ttlast + 5 * usecsPerSec + 1 := by
    unfold extrapolated
    rw [hsteady.withInterval_nDt hfit]
    exact rint_le hsum
  have hlatency : (adj.counted.withInterval tt).latency tt ≤
      tt - (adj.counted.withInterval tt).extrapolated := by
    apply toInt32_le_self
    unfold usecsPerSec at hle
    omega
  omega

theorem Steady.window_withInterval (hsteady : Steady rate adj) (hfit : adj.CountersFit tt)
    (hgap : tt - adj.ttlast ≤ adj.params.bigGapUsec) :
    tt - adj.ttnDt0 ≤ 5 * usecsPerSec * (adj.counted.withInterval tt).nDt := by
  have hwindow := hsteady.window
  rw [hsteady.params] at hgap
  change tt - adj.ttlast ≤ 5 * usecsPerSec at hgap
  rw [hsteady.withInterval_nDt hfit]
  push_cast
  linarith

theorem Steady.count_withInterval (hsteady : Steady rate adj) (hfit : adj.CountersFit tt) :
    (adj.counted.withInterval tt).nDt ≤ adj.counted.ntotalPts := by
  have hcount := hsteady.count
  rw [hsteady.withInterval_nDt hfit, counted_ntotalPts hfit]
  omega

theorem notBackwards_bounds (adj : TimetagAdjuster) (ttAdj : ℤ)
    (hlast : adj.ttAdjLast < tt) (hle : ttAdj ≤ tt) :
    adj.ttAdjLast ≤ adj.notBackwards ttAdj ∧ adj.notBackwards ttAdj ≤ tt := by
  unfold notBackwards
  split
  · omega
  · omega

/-- What a call leaves, and what it returns. -/
structure Moves (rate : ℚ) (adj : TimetagAdjuster) (tt : ℤ) (result : TimetagAdjuster × ℤ) :
    Prop where
  steady : Steady rate result.1
  ttlast : result.1.ttlast = tt
  ttAdjLast : result.1.ttAdjLast = result.2
  ntotalPts : result.1.ntotalPts = adj.ntotalPts + 1
  ordered : adj.ntotalPts = 0 ∨ adj.ttAdjLast ≤ result.2

/-- A restart at a raw time, with estimates that are in order. -/
theorem Steady.restart (hsteady : Steady rate adj) (next : TimetagAdjuster)
    (hlater : adj.ttlast < tt) (hparams : next.params = adj.params) (hlast : next.ttlast = tt)
    (htotal : next.ntotalPts = adj.ntotalPts + 1)
    (havg : 0 ≤ next.dtUsecAvg ∧ next.dtUsecAvg ≤ longestDt)
    (hconfig : 0 ≤ next.dtUsecConfig ∧ next.dtUsecConfig ≤ longestDt)
    (hconsec : 0 ≤ next.nConsecNegLatency) : Moves rate adj tt (next.restart tt, tt) where
  steady :=
    { params := hparams.trans hsteady.params
      last := hlast.ge
      base := by
        change (tt : ℚ) + (0 : ℕ) * _ ≤ next.ttlast + 1 / 2
        rw [hlast]
        norm_num
      avg := havg
      config := hconfig
      start := hlast.ge
      window := by
        change next.ttlast - tt ≤ 5 * usecsPerSec * (0 : ℕ)
        rw [hlast]
        norm_num
      count := Nat.zero_le _
      consec_nonneg := hconsec
      few := fun _ => by
        change ((0 : ℕ) : ℤ) ≤ (next.params.nAdj : ℤ) * 2 + next.nConsecNegLatency
        omega
      many := fun _ => rfl }
  ttlast := hlast
  ttAdjLast := rfl
  ntotalPts := htotal
  ordered := Or.inr (hsteady.last.trans hlater.le)

/-- The sample that is counted as the first. -/
theorem Steady.first (hsteady : Steady rate adj) (hfit : adj.CountersFit tt)
    (hfirst : adj.counted.ntotalPts = 1) :
    Moves rate adj tt
      ({ adj.counted with ttnDt0 := tt, tt0 := tt, ttlast := tt, ttAdjLast := tt }, tt) := by
  have hcounted := counted_ntotalPts hfit
  have hcount := hsteady.count
  have hzero : adj.nDt = 0 := by omega
  exact
    { steady :=
        { params := hsteady.params
          last := le_refl _
          base := by
            change (tt : ℚ) + adj.nDt * adj.dtUsecAvg ≤ tt + 1 / 2
            rw [hzero]
            norm_num
          avg := hsteady.avg
          config := hsteady.config
          start := le_refl _
          window := by
            change tt - tt ≤ 5 * usecsPerSec * adj.nDt
            rw [hzero]
            norm_num
          count := by
            change adj.nDt ≤ adj.counted.ntotalPts
            omega
          consec_nonneg := hsteady.consec_nonneg
          few := hsteady.few
          many := hsteady.many }
      ttlast := rfl
      ttAdjLast := rfl
      ntotalPts := hcounted
      ordered := Or.inl (by omega) }

/-- An early sample for which the zero time is shifted. -/
theorem Steady.shift (hsteady : Steady rate adj) (hfit : adj.CountersFit tt)
    (hlater : adj.ttlast < tt) (hgap : tt - adj.ttlast ≤ adj.params.bigGapUsec)
    {next : TimetagAdjuster} {latency ttAdj : ℤ} (hnext : next = adj.counted.withInterval tt)
    (hlatency : latency = next.latency tt)
    (hconsec : toInt32 (adj.nConsecNegLatency + 1) ≤ adj.params.maxConsecNegLatency)
    (httAdj : ttAdj = next.notBackwards (next.extrapolated + latency)) :
    Moves rate adj tt
      ({ next with
        nConsecNegLatency := toInt32 (adj.nConsecNegLatency + 1)
        tt0 := adj.tt0 + latency
        latencyLast := latency
        latencyAdjUsec := min latency 0
        ttAdjLast := ttAdj }, ttAdj) := by
  have hcounted := counted_ntotalPts hfit
  have hnDt := hsteady.withInterval_nDt hfit
  have hback := hsteady.extrapolated_add_latency_le hfit hlater
  have hsum := hsteady.le_extrapolated hfit
  have hnonneg := hsteady.consec_nonneg
  rw [hsteady.params] at hconsec
  rw [toInt32_of_range (by omega) hfit.2] at hconsec ⊢
  change adj.nConsecNegLatency + 1 ≤ 5 at hconsec
  rw [← hnext] at hback hsum hnDt
  rw [← hlatency] at hback
  have hbounds := notBackwards_bounds next (next.extrapolated + latency)
    (show next.ttAdjLast < tt by
      rw [hnext]
      exact hsteady.last.trans_lt hlater) hback
  rw [← httAdj] at hbounds
  subst hnext
  exact
    { steady :=
        { params := hsteady.params
          last := hbounds.2
          base := by
            change ((adj.tt0 + latency : ℤ) : ℚ) +
              (adj.counted.withInterval tt).nDt * adj.dtUsecAvg ≤ tt + 1 / 2
            have hcast : ((adj.counted.withInterval tt).extrapolated : ℚ) + latency ≤ tt := by
              exact_mod_cast hback
            rw [hnDt]
            push_cast at hsum ⊢
            linarith
          avg := hsteady.avg
          config := hsteady.config
          start := hsteady.start.trans hlater.le
          window := hsteady.window_withInterval hfit hgap
          count := hsteady.count_withInterval hfit
          consec_nonneg := by
            change 0 ≤ adj.nConsecNegLatency + 1
            omega
          few := fun _ => by
            have hfew := hsteady.few (by omega)
            change ((adj.counted.withInterval tt).nDt : ℤ) ≤
              adj.params.nAdj * 2 + (adj.nConsecNegLatency + 1)
            omega
          many := fun hmany => by
            change 5 < adj.nConsecNegLatency + 1 at hmany
            omega }
      ttlast := rfl
      ttAdjLast := rfl
      ntotalPts := hcounted
      ordered := Or.inr hbounds.1 }

/-- A late sample inside of a window. -/
theorem Steady.inside (hsteady : Steady rate adj) (hfit : adj.CountersFit tt)
    (hlater : adj.ttlast < tt) (hgap : tt - adj.ttlast ≤ adj.params.bigGapUsec)
    {next : TimetagAdjuster} {latency ttAdj : ℤ} (hnext : next = adj.counted.withInterval tt)
    (hlatency : latency = next.latency tt) (hlate : 0 ≤ latency)
    (hends : ¬ next.windowEnds latency) (httAdj : ttAdj = next.notBackwards next.extrapolated) :
    Moves rate adj tt ({ next.noteLatency latency with ttAdjLast := ttAdj }, ttAdj) := by
  have hnDt := hsteady.withInterval_nDt hfit
  have hback := hsteady.extrapolated_add_latency_le hfit hlater
  have hsum := hsteady.le_extrapolated hfit
  rw [← hnext] at hback hsum hnDt
  rw [← hlatency] at hback
  have hbounds := notBackwards_bounds next next.extrapolated
    (show next.ttAdjLast < tt by
      rw [hnext]
      exact hsteady.last.trans_lt hlater) (by omega)
  rw [← httAdj] at hbounds
  subst hnext
  exact
    { steady :=
        { params := hsteady.params
          last := hbounds.2
          base := by
            change (adj.tt0 : ℚ) + (adj.counted.withInterval tt).nDt * adj.dtUsecAvg ≤ tt + 1 / 2
            have hcast : ((adj.counted.withInterval tt).extrapolated : ℚ) ≤ tt := by
              exact_mod_cast (show (adj.counted.withInterval tt).extrapolated ≤ tt by omega)
            rw [hnDt]
            linarith
          avg := hsteady.avg
          config := hsteady.config
          start := hsteady.start.trans hlater.le
          window := hsteady.window_withInterval hfit hgap
          count := hsteady.count_withInterval hfit
          consec_nonneg := le_refl _
          few := fun _ => by
            unfold windowEnds at hends
            change ((adj.counted.withInterval tt).nDt : ℤ) ≤
              (adj.counted.withInterval tt).params.nAdj * 2 + 0
            omega
          many := fun hmany => absurd hmany (by
            change ¬ (5 : ℤ) < 0
            omega) }
      ttlast := rfl
      ttAdjLast := rfl
      ntotalPts := counted_ntotalPts hfit
      ordered := Or.inr hbounds.1 }

/-- A late sample at the end of a window. -/
theorem Steady.ends (hrate : 1 ≤ rate) (hlimit : 60 * rate < 2 ^ 31)
    (hsteady : Steady rate adj) (hfit : adj.CountersFit tt)
    (hlater : adj.ttlast < tt) (hgap : tt - adj.ttlast ≤ adj.params.bigGapUsec)
    {next : TimetagAdjuster} {latency ttAdj : ℤ} (hnext : next = adj.counted.withInterval tt)
    (hlatency : latency = next.latency tt) (hlate : 0 ≤ latency)
    (httAdj : ttAdj = ((next.noteLatency latency).endWindow tt next.extrapolated).notBackwards
      next.extrapolated) :
    Moves rate adj tt
      ({ (next.noteLatency latency).endWindow tt next.extrapolated with ttAdjLast := ttAdj },
        ttAdj) := by
  have hnDt := hsteady.withInterval_nDt hfit
  have hback := hsteady.extrapolated_add_latency_le hfit hlater
  have hcounted := counted_ntotalPts hfit
  have hcount := hsteady.count_withInterval hfit
  rw [← hnext] at hback hcount hnDt
  rw [← hlatency] at hback
  have hparams : next.params = .ofRate rate := by
    rw [hnext]
    exact hsteady.params
  have htotal : next.ntotalPts = adj.ntotalPts + 1 := by
    rw [hnext]
    exact hcounted
  -- the window has at most the samples of the divisor
  have hdivisor : next.nDt ≤ (next.noteLatency latency).divisor ∧
      (next.noteLatency latency).divisor < 2 ^ 32 := by
    have hlong := AdjusterParams.window_le_nAvg hrate hlimit
    have hshort := AdjusterParams.nAvg_lt hrate hlimit
    have hfew := hsteady.few
    have hmany := hsteady.many
    rw [hsteady.params] at hfew
    change next.nDt ≤ min next.params.nAvg next.ntotalPts ∧
      min next.params.nAvg next.ntotalPts < 2 ^ 32
    rw [hparams]
    omega
  obtain ⟨avg, config, low, high, nDtLow, nDtHigh, maxConsecLow, maxConsecHigh, hupdate, havg,
      hconfig⟩ :=
    updateDt_eq (next.noteLatency latency) tt
      (by rw [hnext]; exact hsteady.avg) (by rw [hnext]; exact hsteady.config)
      (windowDt_bounds (by change 0 < next.nDt; omega)
        (by rw [hnext]; exact hsteady.start.trans hlater.le)
        (by rw [hnext]; exact hsteady.window_withInterval hfit hgap))
      (by change 0 < next.nDt; omega) hdivisor.1 hdivisor.2
  unfold endWindow at httAdj ⊢
  rw [hupdate] at httAdj ⊢
  dsimp only at httAdj ⊢
  have hbounds := notBackwards_bounds next next.extrapolated
    (show next.ttAdjLast < tt by
      rw [hnext]
      exact hsteady.last.trans_lt hlater) (by omega)
  have httAdj : ttAdj = next.notBackwards next.extrapolated := httAdj
  rw [← httAdj] at hbounds
  subst hnext
  exact
    { steady :=
        { params := hsteady.params
          last := hbounds.2
          base := by
            have hzero : ∀ zero : ℤ, zero ≤ tt → (zero : ℚ) + (0 : ℕ) * avg ≤ tt + 1 / 2 := by
              intro zero hle
              have hcast : (zero : ℚ) ≤ tt := by exact_mod_cast hle
              push_cast
              linarith
            apply hzero
            split
            · exact le_refl _
            · have hmin := min_le_left latency adj.latencyAdjUsec
              exact le_trans (Int.add_le_add_left hmin _) hback
          avg := havg
          config := hconfig
          start := le_refl _
          window := by
            change tt - tt ≤ 5 * usecsPerSec * (0 : ℕ)
            norm_num
          count := Nat.zero_le _
          consec_nonneg := le_refl _
          few := fun _ => by
            change ((0 : ℕ) : ℤ) ≤ (adj.params.nAdj : ℤ) * 2 + 0
            omega
          many := fun _ => rfl }
      ttlast := rfl
      ttAdjLast := rfl
      ntotalPts := hcounted
      ordered := Or.inr hbounds.1 }

/-- **One call.** -/
theorem Steady.adjust (hrate : 1 ≤ rate) (hlimit : 60 * rate < 2 ^ 31)
    (hsteady : Steady rate adj) (hfit : adj.CountersFit tt)
    (hlater : adj.ntotalPts = 0 ∨ adj.ttlast < tt) : Moves rate adj tt (adj.adjust tt) := by
  have hcounted := counted_ntotalPts hfit
  have hroom := hfit.2
  have hnonneg := hsteady.consec_nonneg
  have hnotFirst : adj.counted.ntotalPts ≠ 1 → adj.ttlast < tt := by
    intro hne
    rcases hlater with hzero | hlater
    · omega
    · exact hlater
  apply adjust_elim (motive := Moves rate adj tt)
  case first =>
    intro hfirst
    exact hsteady.first hfit hfirst
  case gap =>
    intro hne _
    exact hsteady.restart _ (hnotFirst hne) rfl rfl hcounted hsteady.avg hsteady.config hnonneg
  case again =>
    intro next latency hne _ hnext _ _ _
    subst hnext
    exact hsteady.restart { adj.counted.withInterval tt with
        nConsecNegLatency := toInt32 (adj.nConsecNegLatency + 1), dtUsecAvg := adj.dtUsecConfig }
      (hnotFirst hne) rfl rfl hcounted hsteady.config hsteady.config (by
        change 0 ≤ toInt32 (adj.nConsecNegLatency + 1)
        rw [toInt32_of_range (by omega) hroom]
        omega)
  case shift =>
    intro next latency ttAdj hne hgap hnext hlatency _ hconsec httAdj
    exact hsteady.shift hfit (hnotFirst hne) hgap hnext hlatency hconsec httAdj
  case inside =>
    intro next latency ttAdj hne hgap hnext hlatency hlate hends httAdj
    exact hsteady.inside hfit (hnotFirst hne) hgap hnext hlatency hlate hends httAdj
  case ends =>
    intro next latency ttAdj hne hgap hnext hlatency hlate _ httAdj
    exact hsteady.ends hrate hlimit hfit (hnotFirst hne) hgap hnext hlatency hlate httAdj

/-! ## Runs -/

/-- From any steady state, with raw tags that increase. -/
theorem Steady.answers (hrate : 1 ≤ rate) (hlimit : 60 * rate < 2 ^ 31)
    (hsteady : Steady rate adj) {tags : List ℤ}
    (hincreasing : tags.Pairwise (· < ·))
    (hlater : adj.ntotalPts = 0 ∨ ∀ tt ∈ tags, adj.ttlast < tt)
    (hfit : Along CountersFit TimetagAdjuster.adjust adj tags) :
    (answers TimetagAdjuster.adjust adj tags).Pairwise (· ≤ ·) ∧
      (∀ ttAdj ∈ answers TimetagAdjuster.adjust adj tags,
        adj.ntotalPts = 0 ∨ adj.ttAdjLast ≤ ttAdj) ∧
      List.Forall₂ (· ≤ ·) (answers TimetagAdjuster.adjust adj tags) tags := by
  induction tags generalizing adj with
  | nil => exact ⟨List.Pairwise.nil, by simp [Lib.answers], List.Forall₂.nil⟩
  | cons tt tags ih =>
      obtain ⟨hhead, hrest⟩ := List.pairwise_cons.mp hincreasing
      have hmoves := hsteady.adjust hrate hlimit hfit.1
        (hlater.imp_right fun hall => hall tt List.mem_cons_self)
      obtain ⟨hordered, habove, hraw⟩ := ih hmoves.steady hrest
        (Or.inr fun other hother => by
          rw [hmoves.ttlast]
          exact hhead other hother) hfit.2
      have hlast := hmoves.ttAdjLast
      have hpos := hmoves.ntotalPts
      -- the answer is what the state remembers as the last adjusted tag
      have hafter : ∀ ttAdj ∈ Lib.answers TimetagAdjuster.adjust (adj.adjust tt).1 tags,
          (adj.adjust tt).2 ≤ ttAdj := by
        intro ttAdj hmem
        rcases habove ttAdj hmem with hzero | hle
        · omega
        · rwa [hlast] at hle
      refine ⟨?_, ?_, ?_⟩
      · rw [Lib.answers]
        exact List.pairwise_cons.mpr ⟨hafter, hordered⟩
      · intro ttAdj hmem
        rw [Lib.answers, List.mem_cons] at hmem
        rcases hmoves.ordered with hzero | hle
        · exact Or.inl hzero
        · right
          rcases hmem with rfl | hmem
          · exact hle
          · exact hle.trans (hafter ttAdj hmem)
      · rw [Lib.answers]
        refine List.Forall₂.cons ?_ hraw
        have hsteadyLast := hmoves.steady.last
        rw [hlast, hmoves.ttlast] at hsteadyLast
        exact hsteadyLast

/-- **While the counters fit, the adjusted tags are in order and none is late.** -/
theorem adjusted_inOrder_notLate (rate : ℚ) (hrate : 1 ≤ rate) (hlimit : 60 * rate < 2 ^ 31)
    (tags : List ℤ) (hincreasing : tags.Pairwise (· < ·))
    (hfit : Along CountersFit adjust (create rate) tags) :
    (Lib.answers adjust (create rate) tags).Pairwise (· ≤ ·) ∧
      List.Forall₂ (· ≤ ·) (Lib.answers adjust (create rate) tags) tags := by
  obtain ⟨hordered, -, hraw⟩ :=
    (Steady.create hrate).answers hrate hlimit hincreasing (Or.inl rfl) hfit
  exact ⟨hordered, hraw⟩

/-- A second of a sensor with a rate of 1 Hz, and a sample that is late. -/
theorem adjusted_inOrder_notLate_oneHz :
    (Lib.answers adjust (create 1) [1, 1000001, 2000401]).Pairwise (· ≤ ·) ∧
      List.Forall₂ (· ≤ ·) (Lib.answers adjust (create 1) [1, 1000001, 2000401])
        [1, 1000001, 2000401] :=
  adjusted_inOrder_notLate 1 (le_refl _) (by norm_num) [1, 1000001, 2000401] (by decide) (by
    unfold Along Along Along Along CountersFit
    decide +kernel)

/-! ## An overflow

With a rate of 1 Hz and a sample every 6 seconds, each sample is behind a gap and is counted.  After
`2 ^ 32` samples the next one is taken for the first.  If it comes in the middle of a window the
window is not started again, and is then longer than the divisor. -/

/-- The tags with the given distances. -/
def tagsFrom : ℤ → List ℤ → List ℤ
  | _, [] => []
  | tt, dt :: dts => (tt + dt) :: tagsFrom (tt + dt) dts

theorem tagsFrom_append (tt : ℤ) (first rest : List ℤ) :
    tagsFrom tt (first ++ rest) = tagsFrom tt first ++ tagsFrom (tt + first.sum) rest := by
  induction first generalizing tt with
  | nil => simp [tagsFrom]
  | cons dt first ih => simp [tagsFrom, ih, add_assoc]

theorem lt_of_mem_tagsFrom {tt other : ℤ} {dts : List ℤ} (hpos : ∀ dt ∈ dts, 0 < dt)
    (hmem : other ∈ tagsFrom tt dts) : tt < other := by
  induction dts generalizing tt with
  | nil => cases hmem
  | cons dt dts ih =>
      have hdt := hpos dt List.mem_cons_self
      rcases List.mem_cons.mp hmem with rfl | hmem
      · omega
      · have := ih (fun other hother => hpos other (List.mem_cons_of_mem _ hother)) hmem
        omega

theorem pairwise_tagsFrom {tt : ℤ} {dts : List ℤ} (hpos : ∀ dt ∈ dts, 0 < dt) :
    (tagsFrom tt dts).Pairwise (· < ·) := by
  induction dts generalizing tt with
  | nil => exact List.Pairwise.nil
  | cons dt dts ih =>
      have hrest : ∀ other ∈ dts, 0 < other := fun other hother =>
        hpos other (List.mem_cons_of_mem _ hother)
      exact List.pairwise_cons.mpr ⟨fun _ hmem => lt_of_mem_tagsFrom hrest hmem, ih hrest⟩

/-- The adjuster of a rate of 1 Hz behind a gap. -/
def behindGap (tt : ℤ) (total : ℕ) : TimetagAdjuster :=
  { create 1 with ntotalPts := total, ttlast := tt, tt0 := tt, ttnDt0 := tt, ttAdjLast := tt }

theorem adjust_first (tt : ℤ) : (create 1).adjust tt = (behindGap tt 1, tt) := by
  unfold adjust
  rw [if_pos (by decide)]
  rfl

theorem adjust_behindGap {tt : ℤ} {total : ℕ} (hpos : 1 ≤ total) (hroom : total + 1 < 2 ^ 32) :
    (behindGap tt total).adjust (tt + 6000000) =
      (behindGap (tt + 6000000) (total + 1), tt + 6000000) := by
  have hcounted : (behindGap tt total).counted.ntotalPts = total + 1 := Nat.mod_eq_of_lt hroom
  unfold adjust
  dsimp only
  rw [if_neg (by omega), if_pos (by
    change (5000000 : ℤ) < tt + 6000000 - tt
    omega)]
  change (({ (behindGap tt total).counted with ttlast := _ }.restart _ : TimetagAdjuster), _) = _
  unfold counted
  rw [show ((behindGap tt total).ntotalPts + 1) % 2 ^ 32 = total + 1 from hcounted]
  rfl

/-- Any number of gaps. -/
theorem afterCalls_gaps (tt : ℤ) (total count : ℕ) (hpos : 1 ≤ total)
    (hroom : total + count < 2 ^ 32) :
    afterCalls adjust (behindGap tt total) (tagsFrom tt (List.replicate count 6000000)) =
      behindGap (tt + 6000000 * count) (total + count) := by
  induction count generalizing tt total with
  | zero => simp [tagsFrom, afterCalls]
  | succ count ih =>
      rw [List.replicate_succ, tagsFrom, afterCalls,
        adjust_behindGap hpos (by omega), ih _ _ (by omega) (by omega)]
      congr 1
      · push_cast
        ring
      · omega

/-- Four samples of a window, then the one that is taken for the first, then the end of the window
and a sample with the new average. -/
def overflowDts : List ℤ :=
  [1000000, 1000000, 1000000, 1000000, 1000000, 5000000, 1000000]

/-- All distances: the gaps, so many that there are `2 ^ 32` samples after four more. -/
def wrappingDts : List ℤ := 1 :: (List.replicate (2 ^ 32 - 5) 6000000 ++ overflowDts)

/-- The last tag is adjusted by 68 years, to a later time. -/
theorem answers_overflowDts :
    Lib.answers adjust (behindGap 25769803746000001 (2 ^ 32 - 4))
        (tagsFrom 25769803746000001 overflowDts) =
      [25769803747000001, 25769803748000001, 25769803749000001, 25769803750000001,
        25769803751000001, 25769803756000001, 27917287405000001] := by
  decide +kernel

theorem forall₂_of_append {first first' rest rest' : List ℤ}
    (hall : List.Forall₂ (· ≤ ·) (first ++ rest) (first' ++ rest'))
    (hlength : rest.length = rest'.length) : List.Forall₂ (· ≤ ·) rest rest' := by
  have hfirst : first.length = first'.length := by
    have := hall.length_eq
    rw [List.length_append, List.length_append] at this
    omega
  have hdrop := List.forall₂_drop first.length hall
  rwa [List.drop_left, hfirst, List.drop_left] at hdrop

/-- The tags increase, and one of the adjusted tags is later than its raw tag. -/
theorem adjusted_late_after_overflow :
    (tagsFrom 0 wrappingDts).Pairwise (· < ·) ∧
      ¬ List.Forall₂ (· ≤ ·) (Lib.answers adjust (create 1) (tagsFrom 0 wrappingDts))
        (tagsFrom 0 wrappingDts) := by
  constructor
  · apply pairwise_tagsFrom
    intro dt hmem
    rcases List.mem_cons.mp hmem with rfl | hmem
    · norm_num
    · rcases List.mem_append.mp hmem with hmem | hmem
      · rw [List.eq_of_mem_replicate hmem]
        norm_num
      · exact (by decide : ∀ dt ∈ overflowDts, 0 < dt) dt hmem
  · intro hraw
    have hgaps := afterCalls_gaps 1 1 (2 ^ 32 - 5) (le_refl _)
      (by omega)
    have hsplit : tagsFrom 0 wrappingDts =
        1 :: (tagsFrom 1 (List.replicate (2 ^ 32 - 5) 6000000) ++
          tagsFrom 25769803746000001 overflowDts) := by
      unfold wrappingDts
      rw [tagsFrom, tagsFrom_append, List.sum_replicate]
      norm_num
    rw [hsplit, Lib.answers, adjust_first, answers_append, hgaps,
      show ((1 : ℤ) + 6000000 * (2 ^ 32 - 5 : ℕ)) = 25769803746000001 by norm_num,
      show 1 + (2 ^ 32 - 5) = 2 ^ 32 - 4 by norm_num, answers_overflowDts] at hraw
    have hlast := forall₂_of_append (List.forall₂_cons.mp hraw).2 rfl
    simp only [overflowDts, tagsFrom, List.forall₂_cons] at hlast
    omega

end TimetagAdjuster

end Nidas.Core
