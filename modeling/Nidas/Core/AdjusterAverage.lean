import Mathlib.Algebra.BigOperators.Group.List.Basic
import Mathlib.Algebra.Order.BigOperators.Group.List
import Mathlib.Data.List.DropRight
import Nidas.Core.TimetagAdjuster
import Nidas.Lib.Answers

/-!
# The running average of the intervals

The average is a weighted mean of the old average and the intervals of a window, if the window has
no more intervals than the divisor.  That depends on the rate: the divisor is at most 60 seconds of
samples, and a window has at least five, and sometimes sixteen.

## Strategy

`Window` says what the members of the adjuster are in terms of the raw tags: the window starts at
one of them, has the ones behind it, and there is no gap in it.  So the interval that is computed is
the rounded mean of the new intervals, and it is between them when the sum is not negative;
a negative one is rounded to the other side.  Last, its product with the number of intervals has to
fit into an `unsigned int`.
-/

namespace Nidas.Core

open Lib Util

/-! ## Intervals -/

/-- The differences of neighbours. -/
def intervals : List ℤ → List ℤ
  | first :: second :: rest => (second - first) :: intervals (second :: rest)
  | _ => []

theorem intervals_concat (start : ℤ) (recent : List ℤ) (tt : ℤ) :
    intervals (start :: (recent ++ [tt])) =
      intervals (start :: recent) ++ [tt - (start :: recent).getLast (List.cons_ne_nil _ _)] := by
  induction recent generalizing start with
  | nil => rfl
  | cons next recent ih =>
      rw [List.cons_append, intervals, ih, intervals, List.cons_append,
        List.getLast_cons (List.cons_ne_nil _ _)]

theorem length_intervals (start : ℤ) (recent : List ℤ) :
    (intervals (start :: recent)).length = recent.length := by
  induction recent generalizing start with
  | nil => rfl
  | cons next recent ih => rw [intervals, List.length_cons, ih, List.length_cons]

theorem sum_intervals (start : ℤ) (recent : List ℤ) :
    (intervals (start :: recent)).sum =
      (start :: recent).getLast (List.cons_ne_nil _ _) - start := by
  induction recent generalizing start with
  | nil => simp [intervals]
  | cons next recent ih =>
      rw [intervals, List.sum_cons, ih, List.getLast_cons (List.cons_ne_nil _ _)]
      ring

theorem exists_intervals_append (front : List ℤ) (start : ℤ) (recent : List ℤ) :
    ∃ earlier, intervals (front ++ start :: recent) = earlier ++ intervals (start :: recent) := by
  induction front with
  | nil => exact ⟨[], rfl⟩
  | cons tt front ih =>
      obtain ⟨earlier, hearlier⟩ := ih
      cases front with
      | nil => exact ⟨[start - tt], rfl⟩
      | cons next front =>
          refine ⟨(next - tt) :: earlier, ?_⟩
          rw [List.cons_append, List.cons_append, intervals, ← List.cons_append, hearlier,
            List.cons_append]

/-- The intervals behind one of the tags are the last ones. -/
theorem rtake_intervals (front : List ℤ) (start : ℤ) (recent : List ℤ) :
    (intervals (front ++ start :: recent)).rtake recent.length = intervals (start :: recent) := by
  obtain ⟨earlier, hearlier⟩ := exists_intervals_append front start recent
  rw [hearlier, List.rtake, ← length_intervals start recent, List.length_append,
    Nat.add_sub_cancel, List.drop_left]

/-- The rounded mean of integers is between bounds for them. -/
theorem roundedMean_bounds {values : List ℤ} {low high : ℚ} (hne : values ≠ [])
    (hbounds : ∀ value ∈ values, low ≤ value ∧ (value : ℚ) ≤ high) :
    low ≤ (((values.sum + (values.length / 2 : ℕ)) / values.length : ℤ) : ℚ) ∧
      (((values.sum + (values.length / 2 : ℕ)) / values.length : ℤ) : ℚ) ≤ high := by
  have hlength : (0 : ℤ) < values.length := by
    exact_mod_cast List.length_pos_iff.mpr hne
  have hlow : values.length * ⌈low⌉ ≤ values.sum := by
    rw [← nsmul_eq_mul]
    apply List.card_nsmul_le_sum
    intro value hmem
    exact Int.ceil_le.mpr (hbounds value hmem).1
  have hhigh : values.sum ≤ values.length * ⌊high⌋ := by
    rw [← nsmul_eq_mul]
    apply List.sum_le_card_nsmul
    intro value hmem
    exact Int.le_floor.mpr (hbounds value hmem).2
  constructor
  · apply Int.ceil_le.mp
    apply (Int.le_ediv_iff_mul_le hlength).mpr
    rw [mul_comm]
    omega
  · apply Int.le_floor.mp
    apply Int.le_of_lt_add_one
    apply Int.ediv_lt_of_lt_mul hlength
    rw [add_mul, mul_comm]
    omega

namespace TimetagAdjuster

variable {adj : TimetagAdjuster} {tt : ℤ}

/-! ## The window -/

/-- What the members are for the raw tags that were adjusted: all of them are counted, the last of
them is remembered, and the window has the ones behind its start, without a gap. -/
structure Window (rate : ℚ) (adj : TimetagAdjuster) (tags : List ℤ) : Prop where
  params : adj.params = .ofRate rate
  total : adj.ntotalPts = tags.length
  few : tags.length < 2 ^ 32
  recent : tags ≠ [] → ∃ front recent, tags = front ++ adj.ttnDt0 :: recent ∧
    recent.length = adj.nDt ∧
    (adj.ttnDt0 :: recent).getLast (List.cons_ne_nil _ _) = adj.ttlast ∧
    ∀ dt ∈ intervals (adj.ttnDt0 :: recent), dt ≤ 5 * usecsPerSec
  fresh : tags = [] → adj.nDt = 0

/-- The window starts at the last tag. -/
theorem Window.restarted {rate : ℚ} {next : TimetagAdjuster} {before : List ℤ}
    (hparams : next.params = .ofRate rate) (htotal : next.ntotalPts = before.length + 1)
    (hfew : before.length + 1 < 2 ^ 32) (hnDt : next.nDt = 0) (hstart : next.ttnDt0 = tt)
    (hlast : next.ttlast = tt) : Window rate next (before ++ [tt]) where
  params := hparams
  total := by
    rw [htotal, List.length_append, List.length_singleton]
  few := by
    rw [List.length_append, List.length_singleton]
    exact hfew
  recent := fun _ => ⟨before, [], by rw [hstart], by rw [hnDt]; rfl, by
    rw [hstart, hlast]
    rfl, by simp [intervals]⟩
  fresh := by simp

/-- The window goes on. -/
theorem Window.extended {rate : ℚ} {next : TimetagAdjuster} {before : List ℤ}
    (hwindow : Window rate adj before) (hne : before ≠ [])
    (hgap : tt - adj.ttlast ≤ 5 * usecsPerSec) (hparams : next.params = .ofRate rate)
    (htotal : next.ntotalPts = before.length + 1) (hfew : before.length + 1 < 2 ^ 32)
    (hnDt : next.nDt = adj.nDt + 1) (hstart : next.ttnDt0 = adj.ttnDt0)
    (hlast : next.ttlast = tt) : Window rate next (before ++ [tt]) where
  params := hparams
  total := by
    rw [htotal, List.length_append, List.length_singleton]
  few := by
    rw [List.length_append, List.length_singleton]
    exact hfew
  recent := fun _ => by
    obtain ⟨front, recent, htags, hlength, hrecent, hbounds⟩ := hwindow.recent hne
    refine ⟨front, recent ++ [tt], ?_, ?_, ?_, ?_⟩
    · rw [hstart, htags, List.append_assoc, List.cons_append]
    · rw [List.length_append, hlength, hnDt, List.length_singleton]
    · rw [hlast]
      simp
    · intro dt hmem
      rw [hstart, intervals_concat, List.mem_append, List.mem_singleton, hrecent] at hmem
      rcases hmem with hmem | rfl
      · exact hbounds dt hmem
      · exact hgap
  fresh := by simp

section Step

variable {rate : ℚ} {before : List ℤ}

theorem Window.create (rate : ℚ) : Window rate (create rate) [] :=
  ⟨rfl, rfl, by norm_num, fun hne => absurd rfl hne, fun _ => rfl⟩

theorem Window.counted_ntotalPts (hwindow : Window rate adj before)
    (hfew : before.length + 1 < 2 ^ 32) : adj.counted.ntotalPts = before.length + 1 := by
  have htotal : adj.counted.ntotalPts = (adj.ntotalPts + 1) % 2 ^ 32 := rfl
  rw [htotal, hwindow.total, Nat.mod_eq_of_lt hfew]

theorem Window.ne_nil (hwindow : Window rate adj before) (hfew : before.length + 1 < 2 ^ 32)
    (hfirst : adj.counted.ntotalPts ≠ 1) : before ≠ [] := by
  rintro rfl
  exact hfirst (hwindow.counted_ntotalPts hfew)

theorem Window.nDt_le (hwindow : Window rate adj before) : adj.nDt ≤ before.length := by
  by_cases hnil : before = []
  · rw [hwindow.fresh hnil]
    exact Nat.zero_le _
  · obtain ⟨front, recent, htags, hlength, -⟩ := hwindow.recent hnil
    rw [htags, List.length_append, List.length_cons, hlength]
    omega

theorem Window.withInterval_nDt (hwindow : Window rate adj before)
    (hfew : before.length + 1 < 2 ^ 32) (tt : ℤ) :
    (adj.counted.withInterval tt).nDt = adj.nDt + 1 := by
  have hle := hwindow.nDt_le
  exact Nat.mod_eq_of_lt (show adj.nDt + 1 < 2 ^ 32 by omega)

/-- What a call does to the window. -/
theorem Window.adjust (hwindow : Window rate adj before) (hfew : before.length + 1 < 2 ^ 32)
    (tt : ℤ) : Window rate (adj.adjust tt).1 (before ++ [tt]) := by
  have htotal := hwindow.counted_ntotalPts hfew
  have hnDt := hwindow.withInterval_nDt hfew tt
  have hgap : tt - adj.ttlast ≤ adj.params.bigGapUsec → tt - adj.ttlast ≤ 5 * usecsPerSec := by
    rw [hwindow.params]
    exact id
  apply adjust_elim (motive := fun result => Window rate result.1 (before ++ [tt]))
  case first =>
    intro hfirst
    have hnil : before = [] := List.eq_nil_of_length_eq_zero (by omega)
    exact Window.restarted hwindow.params htotal hfew (hwindow.fresh hnil) rfl rfl
  case gap =>
    intro _ _
    exact Window.restarted hwindow.params htotal hfew rfl rfl rfl
  case again =>
    intro next latency _ _ hnext _ _ _
    subst hnext
    exact Window.restarted hwindow.params htotal hfew rfl rfl rfl
  case shift =>
    intro next latency ttAdj hfirst hsmall hnext _ _ _ _
    subst hnext
    exact hwindow.extended (hwindow.ne_nil hfew hfirst) (hgap hsmall) hwindow.params htotal hfew
      hnDt rfl rfl
  case inside =>
    intro next latency ttAdj hfirst hsmall hnext _ _ _ _
    subst hnext
    exact hwindow.extended (hwindow.ne_nil hfew hfirst) (hgap hsmall) hwindow.params htotal hfew
      hnDt rfl rfl
  case ends =>
    intro next latency ttAdj _ _ hnext _ _ _ _
    subst hnext
    obtain ⟨_, _, _, _, _, _, _, _, hupdate⟩ := updateDt_frame
      ((adj.counted.withInterval tt).noteLatency latency) tt
    unfold endWindow
    rw [hupdate]
    exact Window.restarted hwindow.params htotal hfew rfl rfl rfl

end Step

/-! ## The average -/

/-- The window at whose end a call updates the average, if it does. -/
def updates (adj : TimetagAdjuster) (tt : ℤ) : Option TimetagAdjuster :=
  (adj.atWindowEnd tt).filter fun window => !(window.screenDt (window.windowDt tt)).2

/-- A weighted mean of two numbers is between bounds for them. -/
theorem weightedMean_bounds {low high old new : ℚ} {count total : ℕ} (hcount : count ≤ total)
    (htotal : 0 < total) (hold : low ≤ old ∧ old ≤ high) (hnew : low ≤ new ∧ new ≤ high) :
    low ≤ (old * (total - count) + new * count) / total ∧
      (old * (total - count) + new * count) / total ≤ high := by
  have hpos : (0 : ℚ) < total := by exact_mod_cast htotal
  have hweight : (0 : ℚ) ≤ total - count := by
    rw [sub_nonneg]
    exact_mod_cast hcount
  have hcast : (0 : ℚ) ≤ count := by positivity
  constructor
  · rw [le_div_iff₀ hpos]
    calc low * total = low * (total - count) + low * count := by ring
      _ ≤ old * (total - count) + new * count :=
          add_le_add (mul_le_mul_of_nonneg_right hold.1 hweight)
            (mul_le_mul_of_nonneg_right hnew.1 hcast)
  · rw [div_le_iff₀ hpos]
    calc old * (total - count) + new * count ≤ high * (total - count) + high * count :=
          add_le_add (mul_le_mul_of_nonneg_right hold.2 hweight)
            (mul_le_mul_of_nonneg_right hnew.2 hcast)
      _ = high * total := by ring

/-- An update within the range of the types is a weighted mean. -/
theorem updateDt_bounds {low high : ℚ} (hfolds : (adj.screenDt (adj.windowDt tt)).2 = false)
    (hpos : 0 < adj.nDt) (hle : adj.nDt ≤ adj.divisor) (hlt : adj.divisor < 2 ^ 32)
    (hnonneg : 0 ≤ adj.windowDt tt) (hproduct : adj.windowDt tt * adj.nDt < 2 ^ 32)
    (havg : low ≤ adj.dtUsecAvg ∧ adj.dtUsecAvg ≤ high)
    (hdt : low ≤ adj.windowDt tt ∧ (adj.windowDt tt : ℚ) ≤ high) :
    low ≤ (adj.updateDt tt).dtUsecAvg ∧ (adj.updateDt tt).dtUsecAvg ≤ high := by
  obtain ⟨nDtLow, nDtHigh, maxConsecLow, maxConsecHigh, screened, hmem, hscreen⟩ :=
    adj.screenDt_eq (adj.windowDt tt)
  -- the old average, or the interval itself if the limits were adjusted
  have hscreened : screened.nDt = adj.nDt ∧ screened.params = adj.params ∧
      screened.ntotalPts = adj.ntotalPts ∧
      low ≤ screened.dtUsecAvg ∧ screened.dtUsecAvg ≤ high := by
    rw [List.mem_pair] at hmem
    rcases hmem with rfl | rfl
    · exact ⟨rfl, rfl, rfl, havg⟩
    · exact ⟨rfl, rfl, rfl, hdt⟩
  obtain ⟨hnDt, hparams, htotal, hold⟩ := hscreened
  have hmean := weightedMean_bounds hle (hpos.trans_le hle) hold hdt
  have hweight : toUInt32 ((adj.divisor : ℤ) - adj.nDt) = (adj.divisor : ℤ) - adj.nDt :=
    toUInt32_of_range (by omega) (by omega)
  have hfolded : toUInt32 (adj.windowDt tt * adj.nDt) = adj.windowDt tt * adj.nDt :=
    toUInt32_of_range (mul_nonneg hnonneg (by positivity)) hproduct
  have havg' : (adj.updateDt tt).dtUsecAvg =
      (screened.dtUsecAvg * (adj.divisor - adj.nDt) + adj.windowDt tt * adj.nDt) /
        adj.divisor := by
    have hdivisor : adj.divisor = min screened.params.nAvg screened.ntotalPts := by
      rw [hparams, htotal]
      rfl
    unfold updateDt
    dsimp only
    rw [hfolds, hscreen, if_neg (by simp)]
    unfold foldDt
    change (screened.dtUsecAvg * toUInt32 ((min screened.params.nAvg screened.ntotalPts : ℕ) -
        screened.nDt) + toUInt32 (adj.windowDt tt * screened.nDt)) /
      (min screened.params.nAvg screened.ntotalPts : ℕ) = _
    rw [← hdivisor, hnDt, hweight, hfolded]
    push_cast
    ring
  rw [havg']
  exact hmean

/-- An update of the average: the divisor is positive and at least the number of new intervals, and
the new average is between any bounds for the old one and the new intervals. -/
def AveragesRight (rate : ℚ) (before : List ℤ) (tt : ℤ) : Prop :=
  ∀ window, (afterCalls adjust (create rate) before).updates tt = some window →
    0 < window.divisor ∧ window.nDt ≤ window.divisor ∧
    ∀ low high : ℚ,
      low ≤ (afterCalls adjust (create rate) before).dtUsecAvg ∧
        (afterCalls adjust (create rate) before).dtUsecAvg ≤ high →
      (∀ dt ∈ (intervals (before ++ [tt])).rtake window.nDt, low ≤ dt ∧ (dt : ℚ) ≤ high) →
      low ≤ ((afterCalls adjust (create rate) before).adjust tt).1.dtUsecAvg ∧
        ((afterCalls adjust (create rate) before).adjust tt).1.dtUsecAvg ≤ high

/-- The window has at most the samples of the averaging period, the rounded sum of its intervals is
not negative, and the product of their mean and their number fits into an `unsigned int`. -/
def Fits (window : TimetagAdjuster) (tt : ℤ) : Prop :=
  window.nDt ≤ window.params.nAvg ∧
    0 ≤ tt - window.ttnDt0 + (window.nDt / 2 : ℕ) ∧
    (tt - window.ttnDt0 + (window.nDt / 2 : ℕ)) / window.nDt * window.nDt < 2 ^ 32

instance (window : TimetagAdjuster) (tt : ℤ) : Decidable (window.Fits tt) :=
  inferInstanceAs (Decidable (_ ∧ _))

/-- The counter of samples has room for another one, and if the average is updated the window
fits. -/
def WindowFits (rate : ℚ) (before : List ℤ) (tt : ℤ) : Prop :=
  before.length + 1 < 2 ^ 32 ∧
    ∀ window ∈ (afterCalls adjust (create rate) before).updates tt, window.Fits tt

instance (rate : ℚ) (before : List ℤ) (tt : ℤ) : Decidable (WindowFits rate before tt) :=
  inferInstanceAs (Decidable (_ ∧ _))

section Update

variable {rate : ℚ} {before : List ℤ} {window : TimetagAdjuster}

theorem updates_eq (hupdates : adj.updates tt = some window) :
    adj.atWindowEnd tt = some window ∧
      (window.screenDt (window.windowDt tt)).2 = false := by
  obtain ⟨hends, hfolds⟩ := Option.filter_eq_some_iff.mp hupdates
  refine ⟨hends, ?_⟩
  simpa using hfolds

/-- The new intervals, when a window is at its end. -/
theorem Window.newIntervals (hwindow : Window rate adj before)
    (hfew : before.length + 1 < 2 ^ 32) (hends : adj.atWindowEnd tt = some window) :
    ((intervals (before ++ [tt])).rtake window.nDt).length = window.nDt ∧
      ((intervals (before ++ [tt])).rtake window.nDt).sum = tt - window.ttnDt0 ∧
      ∀ dt ∈ (intervals (before ++ [tt])).rtake window.nDt, dt ≤ 5 * usecsPerSec := by
  obtain ⟨rfl, hfirst, hgap, -⟩ := atWindowEnd_eq hends
  obtain ⟨front, recent, htags, hlength, hlast, hbounds⟩ :=
    hwindow.recent (hwindow.ne_nil hfew hfirst)
  have hnDt : ((adj.counted.withInterval tt).noteLatency
      ((adj.counted.withInterval tt).latency tt)).nDt = (recent ++ [tt]).length := by
    rw [List.length_append, hlength]
    exact hwindow.withInterval_nDt hfew tt
  have hnew : (intervals (before ++ [tt])).rtake (recent ++ [tt]).length =
      intervals (adj.ttnDt0 :: (recent ++ [tt])) := by
    rw [htags, List.append_assoc, List.cons_append]
    exact rtake_intervals front adj.ttnDt0 (recent ++ [tt])
  rw [hwindow.params] at hgap
  rw [hnDt, hnew]
  refine ⟨length_intervals _ _, ?_, ?_⟩
  · rw [sum_intervals]
    simp only [← List.cons_append, List.getLast_append_singleton]
    rfl
  · intro dt hmem
    rw [intervals_concat, List.mem_append, List.mem_singleton, hlast] at hmem
    rcases hmem with hmem | rfl
    · exact hbounds dt hmem
    · exact hgap

/-- The interval of a window is the rounded mean of the new intervals. -/
theorem Window.windowDt_eq (hwindow : Window rate adj before)
    (hfew : before.length + 1 < 2 ^ 32) (hends : adj.atWindowEnd tt = some window)
    (hpos : 0 < window.nDt) (hnonneg : 0 ≤ tt - window.ttnDt0 + (window.nDt / 2 : ℕ)) :
    window.windowDt tt = (tt - window.ttnDt0 + (window.nDt / 2 : ℕ)) / window.nDt := by
  obtain ⟨hlength, hsum, hbounds⟩ := hwindow.newIntervals hfew hends
  have hle : tt - window.ttnDt0 ≤ window.nDt * (5 * usecsPerSec) := by
    have := List.sum_le_card_nsmul _ _ hbounds
    rwa [hsum, hlength, nsmul_eq_mul] at this
  have hquot : (tt - window.ttnDt0 + (window.nDt / 2 : ℕ)) / window.nDt ≤ 5 * usecsPerSec := by
    apply Int.le_of_lt_add_one
    apply Int.ediv_lt_of_lt_mul (by omega)
    rw [add_mul, mul_comm]
    omega
  have hquotNonneg : 0 ≤ (tt - window.ttnDt0 + (window.nDt / 2 : ℕ)) / (window.nDt : ℤ) :=
    Int.ediv_nonneg hnonneg (by omega)
  unfold windowDt
  rw [Int.tdiv_eq_ediv_of_nonneg hnonneg]
  unfold usecsPerSec at hquot
  rw [toInt32_of_range (by omega) (by omega)]

/-- **One update.** -/
theorem averagesRight_of_windowFits
    (hwindow : Window rate (afterCalls adjust (create rate) before) before)
    (hfits : WindowFits rate before tt) : AveragesRight rate before tt := by
  intro window hupdates
  obtain ⟨hfew, hfits⟩ := hfits
  obtain ⟨havg, hnonneg, hproduct⟩ := hfits window hupdates
  obtain ⟨hends, hfolds⟩ := updates_eq hupdates
  obtain ⟨hlength, hsum, -⟩ := hwindow.newIntervals hfew hends
  have heq := (atWindowEnd_eq hends).1
  have hnDt : window.nDt = (afterCalls adjust (create rate) before).nDt + 1 := by
    rw [heq]
    exact hwindow.withInterval_nDt hfew tt
  have htotal : window.ntotalPts = before.length + 1 := by
    rw [heq]
    exact hwindow.counted_ntotalPts hfew
  have hcount := hwindow.nDt_le
  have hpos : 0 < window.nDt := by omega
  have hdivisor : window.nDt ≤ window.divisor := le_min havg (by omega)
  have hlt : window.divisor < 2 ^ 32 := (min_le_right _ _).trans_lt (by omega)
  have hdt := hwindow.windowDt_eq hfew hends hpos hnonneg
  refine ⟨hpos.trans_le hdivisor, hdivisor, ?_⟩
  intro low high hold hnew
  have hmean := roundedMean_bounds
    (List.ne_nil_of_length_pos (by rw [hlength]; exact hpos)) hnew
  rw [hlength, hsum, ← hdt] at hmean
  obtain ⟨tt0, ttAdj, hadjust⟩ := adjust_of_atWindowEnd hends
  rw [hadjust]
  refine updateDt_bounds hfolds hpos hdivisor hlt ?_ (by rw [hdt]; exact hproduct) ?_ hmean
  · rw [hdt]
    exact Int.ediv_nonneg hnonneg (by omega)
  · rw [heq]
    exact hold

end Update

/-- **If every window fits, every update of the average is right.** -/
theorem atEvery_averagesRight (rate : ℚ) (tags : List ℤ)
    (hfits : AtEvery (WindowFits rate) tags) : AtEvery (AveragesRight rate) tags := by
  have hwindow : ∀ before, before <+: tags →
      Window rate (afterCalls adjust (create rate) before) before := by
    intro before hbefore
    refine AtEvery.invariant (fun before =>
      Window rate (afterCalls adjust (TimetagAdjuster.create rate) before) before)
      (Window.create rate) ?_ hfits hbefore
    intro before tt hwindow hfit
    rw [afterCalls_concat]
    exact hwindow.adjust hfit.1 tt
  intro before tt hbefore
  exact averagesRight_of_windowFits
    (hwindow before ((List.prefix_append before [tt]).trans hbefore)) (hfits before tt hbefore)

/-- A window of a sensor of 1 Hz. -/
theorem atEvery_averagesRight_oneHz :
    AtEvery (AveragesRight 1) [0, 1000000, 2000000, 3000000, 4000000, 5000400] :=
  atEvery_averagesRight 1 [0, 1000000, 2000000, 3000000, 4000000, 5000400] (by decide +kernel)

/-- A sensor with a sample every 4 seconds.  The second comes a second too late, the next ones are
less and less late, and then five are early. -/
def slowingTags : List ℤ :=
  [0, 5000000, 8900000, 12800000, 16700000, 20600000, 24500000, 28400000, 32300000, 36200000,
    40100000, 43999999, 47999998, 51999997, 55999996, 59999995]

/-- The window has 16 intervals, the divisor is 15, and the average is 36 years. -/
theorem average_of_long_window :
    ((afterCalls adjust (create (1 / 4)) slowingTags).updates 63999995).map
        (fun window => (window.nDt, window.divisor)) = some (16, 15) ∧
      ((afterCalls adjust (create (1 / 4)) slowingTags).adjust 63999995).1.dtUsecAvg =
        3435973848800000 / 3 ∧
      ¬ AtEvery (AveragesRight (1 / 4)) (slowingTags ++ [63999995]) := by
  have hwindow : ((afterCalls adjust (TimetagAdjuster.create (1 / 4)) slowingTags).updates
      63999995).map (fun window => (window.nDt, window.divisor)) = some (16, 15) := by
    decide +kernel
  refine ⟨hwindow, by decide +kernel, ?_⟩
  intro hall
  obtain ⟨window, hupdates, hfacts⟩ := Option.map_eq_some_iff.mp hwindow
  rw [Prod.mk.injEq] at hfacts
  have hle := (hall slowingTags 63999995 (List.prefix_refl _) window hupdates).2.1
  omega

end TimetagAdjuster

end Nidas.Core
