import Nidas.Core.TimetagAdjuster
import Nidas.Lib.Answers

/-!
# Which intervals are left out of the average

An interval outside of the limits should be left out of the average, until there are more than five
of them in a row on the same side.  In `screenDt` the interval is left out in the branch that
writes a warning, and that is written for the first of a hundred only.

## Strategy

The counters of intervals in a row start again after the sixth, when the limits are adjusted.  So
they are the length of the run modulo six, `Screens.low` and `Screens.high`.  For a run of at most
five the interval is left out exactly if the warning is due, so a history has the property exactly
if the warning is due at all of these.
-/

namespace Nidas.Core

open Lib

namespace TimetagAdjuster

/-! ## Sides -/

/-- Where an interval is, compared with the limits. -/
inductive Side where
  | low
  | high
  | within
  deriving DecidableEq, Repr

/-- The side of an interval. -/
def side (adj : TimetagAdjuster) (dtUsec : ℚ) : Side :=
  if dtUsec < adj.dtUsecLowLimit then .low
  else if dtUsec > adj.dtUsecHighLimit then .high
  else .within

/-- The side of the interval that is screened in a call, if there is one. -/
def screenedSide (adj : TimetagAdjuster) (tt : ℤ) : Option Side :=
  (adj.atWindowEnd tt).map fun window => window.side (window.windowDt tt)

/-- The sides of all the intervals that are screened, in their order. -/
def sides : TimetagAdjuster → List ℤ → List Side
  | _, [] => []
  | adj, tt :: tags => (adj.screenedSide tt).toList ++ sides (adj.adjust tt).1 tags

/-- The number of intervals on a side since the last one that was not. -/
def consecutive (side : Side) (history : List Side) : ℕ :=
  (history.reverse.takeWhile (· = side)).length

/-- The number of all intervals on a side, in the counter of the source. -/
def badCount (adj : TimetagAdjuster) : Side → ℕ
  | .low => adj.nDtLow
  | .high => adj.nDtHigh
  | .within => 0

/-- The counter of intervals in a row on a side. -/
def maxConsec (adj : TimetagAdjuster) : Side → ℤ
  | .low => adj.maxConsecLow
  | .high => adj.maxConsecHigh
  | .within => 0

variable {adj : TimetagAdjuster} {tt : ℤ} {dtUsec : ℚ}

theorem sides_concat (adj : TimetagAdjuster) (before : List ℤ) (tt : ℤ) :
    sides adj (before ++ [tt]) =
      sides adj before ++ ((afterCalls adjust adj before).screenedSide tt).toList := by
  induction before generalizing adj with
  | nil => simp [sides, afterCalls]
  | cons first before ih =>
      rw [List.cons_append, sides, ih, sides, afterCalls, List.append_assoc]

theorem consecutive_concat_self (side : Side) (history : List Side) :
    consecutive side (history ++ [side]) = consecutive side history + 1 := by
  unfold consecutive
  rw [List.reverse_append, List.reverse_singleton, List.singleton_append,
    List.takeWhile_cons_of_pos (by simp), List.length_cons]

theorem consecutive_concat_ne {side other : Side} (hne : other ≠ side) (history : List Side) :
    consecutive side (history ++ [other]) = 0 := by
  unfold consecutive
  rw [List.reverse_append, List.reverse_singleton, List.singleton_append,
    List.takeWhile_cons_of_neg (by simpa using hne), List.length_nil]

/-! ## Screening -/

/-- When an interval is left out: the warning is due, and it is not one too many. -/
theorem screenDt_skips_iff (adj : TimetagAdjuster) (dtUsec : ℚ) :
    (adj.screenDt dtUsec).2 = true ↔
      adj.side dtUsec ≠ .within ∧
        toInt32 (adj.maxConsec (adj.side dtUsec) + 1) ≤ adj.params.maxConsecBadDt ∧
        adj.badCount (adj.side dtUsec) % 100 = 0 := by
  unfold screenDt side
  split
  · dsimp only [maxConsec, badCount]
    split
    · next hmany => simp [not_le.mpr hmany]
    · next hfew =>
        split
        · next hdue => simp [not_lt.mp hfew, hdue]
        · next hdue => simp [hdue]
  · split
    · dsimp only [maxConsec, badCount]
      split
      · next hmany => simp [not_le.mpr hmany]
      · next hfew =>
          split
          · next hdue => simp [not_lt.mp hfew, hdue]
          · next hdue => simp [hdue]
    · simp

/-- An interval that is left out leaves the average. -/
theorem screenDt_dtUsecAvg (hskips : (adj.screenDt dtUsec).2 = true) :
    (adj.screenDt dtUsec).1.dtUsecAvg = adj.dtUsecAvg := by
  have hfew := ((adj.screenDt_skips_iff dtUsec).mp hskips).2.1
  unfold side at hfew
  unfold screenDt
  split
  · next hlow =>
      rw [if_pos hlow] at hfew
      dsimp only
      split
      · next hmany => exact absurd hfew (not_le.mpr hmany)
      · split <;> rfl
  · next hlow =>
      rw [if_neg hlow] at hfew
      split
      · next hhigh =>
          rw [if_pos hhigh] at hfew
          dsimp only
          split
          · next hmany => exact absurd hfew (not_le.mpr hmany)
          · split <;> rfl
      · rfl

/-- The counters in a row after an interval was screened: that of its side starts again when it
exceeds the limit, and that of the other side in any case. -/
theorem screenDt_maxConsec (adj : TimetagAdjuster) (dtUsec : ℚ) {side : Side}
    (hside : side ≠ .within) :
    (adj.screenDt dtUsec).1.maxConsec side =
      if adj.side dtUsec = side then
        if toInt32 (adj.maxConsec side + 1) > adj.params.maxConsecBadDt then 0
        else toInt32 (adj.maxConsec side + 1)
      else 0 := by
  unfold screenDt TimetagAdjuster.side
  cases side with
  | within => exact absurd rfl hside
  | low =>
      split
      · rw [if_pos rfl]
        dsimp only [maxConsec]
        split
        · next hmany => exact (if_pos hmany).symm
        · next hfew =>
            refine Eq.trans ?_ (if_neg hfew).symm
            split <;> rfl
      · split
        · dsimp only [maxConsec]
          split
          · rfl
          · split <;> rfl
        · rfl
  | high =>
      split
      · dsimp only [maxConsec]
        split
        · rfl
        · split <;> rfl
      · split
        · rw [if_pos rfl]
          dsimp only [maxConsec]
          split
          · next hmany => exact (if_pos hmany).symm
          · next hfew =>
              refine Eq.trans ?_ (if_neg hfew).symm
              split <;> rfl
        · rfl

theorem updateDt_maxConsec (adj : TimetagAdjuster) (tt : ℤ) (side : Side) :
    (adj.updateDt tt).maxConsec side = (adj.screenDt (adj.windowDt tt)).1.maxConsec side := by
  unfold updateDt
  dsimp only
  split
  · rfl
  · cases side <;> rfl

theorem updateDt_dtUsecAvg (hskips : (adj.screenDt (adj.windowDt tt)).2 = true) :
    (adj.updateDt tt).dtUsecAvg = adj.dtUsecAvg := by
  rw [← screenDt_dtUsecAvg hskips]
  unfold updateDt
  dsimp only
  rw [if_pos hskips]

/-! ## Runs -/

/-- The counters are the intervals in a row, up to multiples of six. -/
structure Screens (adj : TimetagAdjuster) (history : List Side) : Prop where
  limit : adj.params.maxConsecBadDt = 5
  maxConsec : ∀ side ≠ Side.within,
    adj.maxConsec side = ((consecutive side history % 6 : ℕ) : ℤ)

/-- The counter of a side in the window that is screened. -/
theorem Screens.atWindowEnd {history : List Side} {window : TimetagAdjuster}
    (hscreens : adj.Screens history) (hwindow : adj.atWindowEnd tt = some window) :
    window.Screens history := by
  obtain ⟨rfl, -⟩ := atWindowEnd_eq hwindow
  refine ⟨hscreens.limit, ?_⟩
  intro side hside
  rw [← hscreens.maxConsec side hside]
  cases side <;> rfl

/-- One interval more. -/
theorem Screens.screenDt {history : List Side} (hscreens : adj.Screens history) (dtUsec : ℚ)
    {side : Side} (hside : side ≠ .within) :
    (adj.screenDt dtUsec).1.maxConsec side =
      ((consecutive side (history ++ [adj.side dtUsec]) % 6 : ℕ) : ℤ) := by
  rw [adj.screenDt_maxConsec dtUsec hside]
  split
  · next hsame =>
      rw [hsame, consecutive_concat_self, hscreens.limit, hscreens.maxConsec side hside,
        toInt32_of_range (by omega) (by omega)]
      split
      · omega
      · omega
  · next hother =>
      rw [consecutive_concat_ne hother]
      rfl

/-- What a call does to the counters. -/
theorem Screens.adjust {history : List Side} (hscreens : adj.Screens history) (tt : ℤ) :
    (adj.adjust tt).1.Screens (history ++ (adj.screenedSide tt).toList) := by
  refine ⟨by rw [adjust_params, hscreens.limit], ?_⟩
  intro side hside
  unfold screenedSide
  cases hwindow : adj.atWindowEnd tt with
  | none =>
      obtain ⟨hlow, hhigh⟩ := adjust_of_not_atWindowEnd hwindow
      rw [Option.map_none, Option.toList_none, List.append_nil, ← hscreens.maxConsec side hside]
      cases side with
      | low => exact hlow
      | high => exact hhigh
      | within => rfl
  | some window =>
      obtain ⟨tt0, ttAdj, hadjust⟩ := adjust_of_atWindowEnd hwindow
      have hsame : (adj.adjust tt).1.maxConsec side = (window.updateDt tt).maxConsec side := by
        rw [hadjust]
        cases side <;> rfl
      rw [hsame, updateDt_maxConsec, (hscreens.atWindowEnd hwindow).screenDt _ hside]
      rfl

theorem Screens.create (rate : ℚ) : (create rate).Screens [] := by
  refine ⟨rfl, ?_⟩
  intro side _
  cases side <;> rfl

/-- The counters along a run. -/
theorem Screens.afterCalls (rate : ℚ) (before : List ℤ) :
    (afterCalls TimetagAdjuster.adjust (TimetagAdjuster.create rate) before).Screens
      (sides (TimetagAdjuster.create rate) before) := by
  induction before using List.reverseRecOn with
  | nil => exact Screens.create rate
  | append_singleton before tt ih =>
      rw [afterCalls_concat, sides_concat]
      exact ih.adjust tt

/-- An interval out of the limits goes into the average only if it is more than the fifth in a row
on its side.  One that does not leaves the average as it is. -/
def LeavesOut (rate : ℚ) (before : List ℤ) (tt : ℤ) : Prop :=
  ∀ window, (Lib.afterCalls adjust (create rate) before).atWindowEnd tt = some window →
    window.side (window.windowDt tt) ≠ .within →
    ((window.screenDt (window.windowDt tt)).2 = false →
      5 < consecutive (window.side (window.windowDt tt)) (sides (create rate) (before ++ [tt]))) ∧
    ((window.screenDt (window.windowDt tt)).2 = true →
      ((Lib.afterCalls adjust (create rate) before).adjust tt).1.dtUsecAvg =
        (Lib.afterCalls adjust (create rate) before).dtUsecAvg)

/-- For an interval out of the limits that is at most the fifth in a row, the counter of all
intervals on its side is a multiple of a hundred. -/
def WarningDue (rate : ℚ) (before : List ℤ) (tt : ℤ) : Prop :=
  ∀ window, (Lib.afterCalls adjust (create rate) before).atWindowEnd tt = some window →
    window.side (window.windowDt tt) ≠ .within →
    consecutive (window.side (window.windowDt tt)) (sides (create rate) (before ++ [tt])) ≤ 5 →
      window.badCount (window.side (window.windowDt tt)) % 100 = 0

theorem leavesOut_iff (rate : ℚ) (before : List ℤ) (tt : ℤ) :
    LeavesOut rate before tt ↔ WarningDue rate before tt := by
  refine forall_congr' fun window => forall_congr' fun hwindow => forall_congr' fun hside => ?_
  have hscreens := (Screens.afterCalls rate before).atWindowEnd hwindow
  have hskips := window.screenDt_skips_iff (window.windowDt tt)
  have hcount : consecutive (window.side (window.windowDt tt))
      (sides (TimetagAdjuster.create rate) (before ++ [tt])) =
        consecutive (window.side (window.windowDt tt))
          (sides (TimetagAdjuster.create rate) before) + 1 := by
    rw [sides_concat, screenedSide, hwindow, Option.map_some, Option.toList_some,
      consecutive_concat_self]
  have hkept : (window.screenDt (window.windowDt tt)).2 = true →
      ((Lib.afterCalls TimetagAdjuster.adjust (TimetagAdjuster.create rate) before).adjust
          tt).1.dtUsecAvg =
        (Lib.afterCalls TimetagAdjuster.adjust (TimetagAdjuster.create rate) before).dtUsecAvg := by
    intro hskip
    obtain ⟨tt0, ttAdj, hadjust⟩ := adjust_of_atWindowEnd hwindow
    rw [hadjust]
    change (window.updateDt tt).dtUsecAvg = _
    rw [updateDt_dtUsecAvg hskip, (atWindowEnd_eq hwindow).1]
    rfl
  rw [hscreens.limit, hscreens.maxConsec _ hside,
    toInt32_of_range (by omega) (by omega)] at hskips
  rw [hcount]
  constructor
  · rintro ⟨hfolds, -⟩ hfew
    by_contra hdue
    have hfolded : (window.screenDt (window.windowDt tt)).2 = false := by
      rw [Bool.eq_false_iff]
      intro hskip
      exact hdue (hskips.mp hskip).2.2
    have := hfolds hfolded
    omega
  · intro hdue
    refine ⟨fun hfolded => ?_, hkept⟩
    by_contra hfew
    have hskip := hskips.mpr ⟨hside, by omega, hdue (by omega)⟩
    rw [hfolded] at hskip
    cases hskip

/-- **All intervals out of the limits are left out as they should be exactly if the warning is due
at each of them.** -/
theorem atEvery_leavesOut_iff (rate : ℚ) (tags : List ℤ) :
    AtEvery (LeavesOut rate) tags ↔ AtEvery (WarningDue rate) tags := by
  constructor
  · intro hall before tt hbefore
    exact (leavesOut_iff rate before tt).mp (hall before tt hbefore)
  · intro hall before tt hbefore
    exact (leavesOut_iff rate before tt).mpr (hall before tt hbefore)

/-- Two windows of a sensor of 1 Hz that has a sample every 2 seconds. -/
def slowTags : List ℤ :=
  [0, 2000000, 4000000, 6000000, 8000000, 10000000, 12000000, 14000000, 16000000, 18000000]

/-- The second interval in a row that is too long goes into the average. -/
theorem second_interval_folded :
    sides (create 1) (slowTags ++ [20000000]) = [.high, .high] ∧
      (Lib.afterCalls adjust (create 1) slowTags).dtUsecAvg = 1000000 ∧
      ((Lib.afterCalls adjust (create 1) slowTags).adjust 20000000).1.dtUsecAvg = 16000000 / 11 ∧
      ¬ AtEvery (LeavesOut 1) (slowTags ++ [20000000]) := by
  have hsides : sides (TimetagAdjuster.create 1) (slowTags ++ [20000000]) = [.high, .high] := by
    decide +kernel
  refine ⟨hsides, by decide +kernel, by decide +kernel, ?_⟩
  intro hall
  have hleaves := hall slowTags 20000000 (List.prefix_refl _)
  have hwindow : ((Lib.afterCalls TimetagAdjuster.adjust (TimetagAdjuster.create 1)
      slowTags).atWindowEnd 20000000).map (fun window =>
        (window.side (window.windowDt 20000000),
          (window.screenDt (window.windowDt 20000000)).2)) = some (.high, false) := by
    decide +kernel
  obtain ⟨window, hends, hfacts⟩ := Option.map_eq_some_iff.mp hwindow
  rw [Prod.mk.injEq] at hfacts
  have hcount := (hleaves window hends (by rw [hfacts.1]; decide)).1 hfacts.2
  rw [hsides, hfacts.1] at hcount
  exact absurd hcount (by decide)

end TimetagAdjuster

end Nidas.Core
