import Mathlib.Data.Rat.Init
import Nidas.Core.SampleAverager
import Nidas.Lib.Nearest

/-!
# Candidates for a resampled value

The resamplers that send the value that is nearest to a time keep two candidates for each
variable, the previous value and the one that was the nearest when the first value behind the time
came in.  This file has the members for one variable, with the code that both resamplers share.

The candidates follow the values that were received (`Follows`): the previous value is the latest,
and if there is a value behind the target, the other candidate is the nearest.
-/

namespace Nidas.Core

open Lib

/-- The members of the arrays `_prevTT`, `_prevData`, `_nearTT`, `_nearData` and
`_samplesSinceMaster` or `_samplesSinceOutput` for one variable -/
structure ResamplerSlot where
  prevTT : ℤ := 0
  prevData : Option ℚ := none
  nearTT : ℤ := 0
  nearData : Option ℚ := none
  samplesSince : ℕ := 0
  deriving DecidableEq, Repr

/-- A sample that is sent by a resampler. -/
structure ResampledOutput where
  timeTag : ℤ
  data : List (Option ℚ)
  deriving DecidableEq, Repr

/-- The values of a sample for the variables of a resampler, with their output indices.  NaNs are
values too. -/
def resampledValues (vars : List AveragedVariable) (data : List (Option ℚ)) :
    List (ℕ × Option ℚ) :=
  vars.flatMap fun var => (List.range var.length).filterMap fun j =>
    (data[var.inIndex + j]?).map fun value => (var.outIndex + j, value)

namespace ResamplerSlot

/-- A value behind the target, or at it: the first one is compared with the previous value. -/
def take (slot : ResamplerSlot) (target tt : ℤ) (val : Option ℚ) : ResamplerSlot :=
  let decided :=
    if slot.samplesSince = 0 then
      if target > (tt + slot.prevTT).tdiv 2 then
        { slot with nearData := val, nearTT := tt, samplesSince := slot.samplesSince + 1 }
      else
        { slot with
          nearData := slot.prevData
          nearTT := slot.prevTT
          samplesSince := slot.samplesSince + 1 }
    else slot
  { decided with prevData := val, prevTT := tt }

/-- A value that is before the previous one: if there are values behind the target, it can still be
the nearest. -/
def takeEarlier (slot : ResamplerSlot) (target tt : ℤ) (val : Option ℚ) : ResamplerSlot :=
  if slot.samplesSince = 0 then slot
  else
    let nearer :=
      if |target - tt| < |target - slot.nearTT| then { slot with nearTT := tt, nearData := val }
      else slot
    { nearer with prevData := val, prevTT := tt }

/-- The target is a later one. -/
def restart (slot : ResamplerSlot) : ResamplerSlot := { slot with samplesSince := 0 }

/-- The candidate that is used. -/
def chosen (slot : ResamplerSlot) : ℤ × Option ℚ :=
  if slot.samplesSince = 0 then (slot.prevTT, slot.prevData) else (slot.nearTT, slot.nearData)

/-- The candidates for a target are those of the values that were received. -/
structure Follows (slot : ResamplerSlot) (target : ℤ) (items : List (ℤ × Option ℚ)) : Prop where
  before : slot.samplesSince = 0 → items = [] ∧ slot.prevData = none ∨
    IsLatest items (slot.prevTT, slot.prevData) ∧ slot.prevTT ≤ target
  behind : slot.samplesSince ≠ 0 → IsLatest items (slot.prevTT, slot.prevData) ∧
    target ≤ slot.prevTT ∧ IsNearest target items (slot.nearTT, slot.nearData)

variable {slot : ResamplerSlot} {target tt : ℤ} {val : Option ℚ} {items : List (ℤ × Option ℚ)}

theorem take_of_first_nearer (hfirst : slot.samplesSince = 0)
    (hnearer : target > (tt + slot.prevTT).tdiv 2) :
    slot.take target tt val = ⟨tt, val, tt, val, 1⟩ := by
  unfold take
  rw [if_pos hfirst, if_pos hnearer, hfirst]

theorem take_of_first_farther (hfirst : slot.samplesSince = 0)
    (hfarther : ¬ target > (tt + slot.prevTT).tdiv 2) :
    slot.take target tt val = ⟨tt, val, slot.prevTT, slot.prevData, 1⟩ := by
  unfold take
  rw [if_pos hfirst, if_neg hfarther, hfirst]

theorem take_of_later (hlater : slot.samplesSince ≠ 0) :
    slot.take target tt val = { slot with prevData := val, prevTT := tt } := by
  unfold take
  rw [if_neg hlater]

theorem gt_tdiv_two_iff {sum : ℤ} (hsum : 0 ≤ sum) : target > sum.tdiv 2 ↔ sum < 2 * target := by
  rw [Int.tdiv_eq_ediv_of_nonneg hsum]
  omega

/-- The choice between the previous value and the first one behind the target is right, if there is
a previous value. -/
theorem Follows.take (hfollows : slot.Follows target items) (htarget : target ≤ tt)
    (hlate : ∀ item ∈ items, item.1 ≤ tt) (hsum : 0 ≤ tt + slot.prevTT)
    (hfirst : items = [] → target > (tt + slot.prevTT).tdiv 2) :
    (slot.take target tt val).Follows target (items ++ [(tt, val)]) := by
  have hlatest : IsLatest (items ++ [(tt, val)]) (tt, val) := IsLatest.concat hlate
  by_cases hsince : slot.samplesSince = 0
  · by_cases hnearer : target > (tt + slot.prevTT).tdiv 2
    · rw [take_of_first_nearer hsince hnearer]
      refine ⟨fun h => absurd h one_ne_zero, fun _ => ⟨hlatest, htarget, ?_⟩⟩
      rcases hfollows.before hsince with ⟨rfl, -⟩ | ⟨hprev, -⟩
      · exact isNearest_singleton target _
      · have := (gt_tdiv_two_iff hsum).mp hnearer
        apply hprev.isNearest_concat htarget
        dsimp only
        omega
    · rw [take_of_first_farther hsince hnearer]
      refine ⟨fun h => absurd h one_ne_zero, fun _ => ⟨hlatest, htarget, ?_⟩⟩
      rcases hfollows.before hsince with ⟨hnone, -⟩ | ⟨hprev, hle⟩
      · exact absurd (hfirst hnone) hnearer
      · rw [gt_tdiv_two_iff hsum] at hnearer
        apply hprev.isNearest_concat_far hle htarget
        dsimp only
        omega
  · rw [take_of_later hsince]
    obtain ⟨hprev, hbehind, hnearest⟩ := hfollows.behind hsince
    refine ⟨fun h => absurd h hsince, fun _ => ⟨hlatest, htarget, ?_⟩⟩
    exact hnearest.concat_later hprev hbehind (hlate _ hprev.1)

/-- A later target, with no value behind it. -/
theorem Follows.restart (hfollows : slot.Follows target items) {later : ℤ}
    (hlate : ∀ item ∈ items, item.1 ≤ later) : slot.restart.Follows later items := by
  refine ⟨fun _ => ?_, fun h => absurd rfl h⟩
  by_cases hsince : slot.samplesSince = 0
  · rcases hfollows.before hsince with hnone | ⟨hprev, -⟩
    · exact Or.inl hnone
    · exact Or.inr ⟨hprev, hlate _ hprev.1⟩
  · obtain ⟨hprev, -⟩ := hfollows.behind hsince
    exact Or.inr ⟨hprev, hlate _ hprev.1⟩

/-- Without values any target is as good. -/
theorem Follows.of_nil (hfollows : slot.Follows target []) (other : ℤ) :
    slot.Follows other [] := by
  have hsince : slot.samplesSince = 0 := by
    by_contra hsince
    cases (hfollows.behind hsince).1.1
  refine ⟨fun _ => ?_, fun h => absurd hsince h⟩
  rcases hfollows.before hsince with hnone | ⟨hlatest, -⟩
  · exact Or.inl hnone
  · cases hlatest.1

/-- **The candidate that is used is the nearest.** -/
theorem Follows.chosen (hfollows : slot.Follows target items) :
    items = [] ∧ slot.chosen.2 = none ∨ IsNearest target items slot.chosen := by
  unfold ResamplerSlot.chosen
  by_cases hsince : slot.samplesSince = 0
  · rw [if_pos hsince]
    rcases hfollows.before hsince with hnone | ⟨hprev, hle⟩
    · exact Or.inl hnone
    · exact Or.inr (hprev.isNearest hle)
  · rw [if_neg hsince]
    exact Or.inr (hfollows.behind hsince).2.2

end ResamplerSlot

end Nidas.Core
