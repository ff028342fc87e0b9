import Mathlib.Algebra.BigOperators.Group.List.Basic
import Mathlib.Data.Rat.Floor
import Mathlib.Logic.Function.Basic
import Nidas.Core.ValueSample
import Nidas.Lib.Answers
import Nidas.Lib.Buckets
import Nidas.Lib.MachineInt
import Nidas.Util.UTime

/-!
# Averages over periods

A `SampleAverager` adds up the values of its variables over a period, and sends the averages when
the first sample of a later period arrives, or at a flush.  The averages are of type `float` in
the source, and exact here.

The sums are those of the values of the samples since the last output, `SumsOf`.
-/

namespace Nidas.Core

open Lib Util

/-! ## The averager -/

/-- A variable of an input sample: the entries for it in `_inmap`, `_outmap` and `_lenmap`. -/
structure AveragedVariable where
  inIndex : ℕ
  outIndex : ℕ
  length : ℕ
  deriving DecidableEq, Repr

/-- The members of a `SampleAverager`.  `inBounds` is what is asserted in `receive`; the output
index of a variable and `_ndataValues` are computed together when the variable is added. -/
structure SampleAverager where
  averagePeriodUsecs : ℤ
  ndataValues : ℕ
  inputs : ℕ → Option (List AveragedVariable)
  inBounds : ∀ id vars, inputs id = some vars → ∀ var ∈ vars,
    var.outIndex + var.length ≤ ndataValues
  endTime : ℤ := 0
  sums : ℕ → ℚ := fun _ => 0
  cnts : ℕ → ℤ := fun _ => 0

/-- An output sample. -/
structure AverageOutput where
  timeTag : ℤ
  data : List (Option ℚ)
  deriving DecidableEq, Repr

namespace AveragedVariable

/-- The values of a variable in the data of a sample that are not NaN, with their output indices. -/
def values (var : AveragedVariable) (data : List (Option ℚ)) : List (ℕ × ℚ) :=
  (List.range var.length).filterMap fun j =>
    (data[var.inIndex + j]?).join.map fun value => (var.outIndex + j, value)

end AveragedVariable

namespace SampleAverager

/-- The variables of a sample that is used: it is of type float or double and its id is known. -/
def usedVariables (avg : SampleAverager) (samp : ValueSample) : Option (List AveragedVariable) :=
  if samp.type ≠ .float ∧ samp.type ≠ .double then none else avg.inputs samp.id

/-- All values of a sample that go into the sums. -/
def values (avg : SampleAverager) (samp : ValueSample) : List (ℕ × ℚ) :=
  match avg.usedVariables samp with
  | none => []
  | some vars => vars.flatMap fun var => var.values samp.data

/-- The output sample of the period. -/
def output (avg : SampleAverager) : AverageOutput where
  timeTag := avg.endTime - avg.averagePeriodUsecs.tdiv 2
  data := (List.range avg.ndataValues).map fun i =>
    if avg.cnts i > 0 then some (avg.sums i / avg.cnts i) else none

/-- The sums are set to zero. -/
def zeroed (avg : SampleAverager) : SampleAverager :=
  { avg with sums := fun _ => 0, cnts := fun _ => 0 }

/-- The part of `receive` that looks at the time tag. -/
def advance (avg : SampleAverager) (tt : ℤ) : SampleAverager × List AverageOutput :=
  if tt ≥ avg.endTime then
    if avg.endTime > 0 then
      let endTime := avg.endTime + avg.averagePeriodUsecs
      ({ avg.zeroed with
          endTime := if tt > endTime then timeCeiling tt avg.averagePeriodUsecs else endTime },
        [avg.output])
    else ({ avg.zeroed with endTime := timeCeiling tt avg.averagePeriodUsecs }, [])
  else (avg, [])

/-- A value is added to the sum with its index. -/
def addValue (avg : SampleAverager) (value : ℕ × ℚ) : SampleAverager :=
  { avg with
    sums := Function.update avg.sums value.1 (avg.sums value.1 + value.2)
    cnts := Function.update avg.cnts value.1 (toInt32 (avg.cnts value.1 + 1)) }

/-- `SampleAverager::receive`, with the samples that are distributed. -/
def receive (avg : SampleAverager) (samp : ValueSample) : SampleAverager × List AverageOutput :=
  match avg.usedVariables samp with
  | none => (avg, [])
  | some _ =>
      let (next, out) := avg.advance samp.timeTag
      ((avg.values samp).foldl addValue next, out)

/-- `SampleAverager::flush` -/
def flush (avg : SampleAverager) : SampleAverager × List AverageOutput :=
  if avg.endTime > 0 then
    ({ avg.zeroed with endTime := avg.endTime + avg.averagePeriodUsecs },
      if (List.range avg.ndataValues).any fun i => avg.cnts i > 0 then [avg.output] else [])
  else (avg.zeroed, [])

/-- All outputs for a sequence of samples that is ended by a flush. -/
def outputs (avg : SampleAverager) (samples : List ValueSample) : List AverageOutput :=
  (answers receive avg samples).flatten ++ (afterCalls receive avg samples).flush.2

/-! ## What the outputs should be -/

/-- The values with an index. -/
def valuesAt (i : ℕ) (values : List (ℕ × ℚ)) : List ℚ :=
  (values.filter fun value => value.1 = i).map Prod.snd

/-- The mean of some values, or NaN. -/
def mean (values : List ℚ) : Option ℚ :=
  if values = [] then none else some (values.sum / values.length)

/-- The values that are in the period with an end time. -/
def periodValues (avg : SampleAverager) (endTime : ℤ) (samples : List ValueSample) :
    List (ℕ × ℚ) :=
  (samples.filter fun samp =>
    endTime - avg.averagePeriodUsecs ≤ samp.timeTag ∧ samp.timeTag < endTime).flatMap avg.values

/-- The output for a period. -/
def outputOf (avg : SampleAverager) (endTime : ℤ) (values : List (ℕ × ℚ)) : AverageOutput where
  timeTag := endTime - avg.averagePeriodUsecs.tdiv 2
  data := (List.range avg.ndataValues).map fun i => mean (valuesAt i values)

/-- Each output is that of a period, and each sample that has a value for a sum is in the period of
exactly one output. -/
def AveragesPeriods (avg : SampleAverager) (samples : List ValueSample) : Prop :=
  (∀ out ∈ avg.outputs samples, ∃ endTime, avg.averagePeriodUsecs ∣ endTime ∧
      out = avg.outputOf endTime (avg.periodValues endTime samples)) ∧
    ∀ samp ∈ samples, avg.values samp ≠ [] →
      (avg.outputs samples).countP (fun out => out.timeTag =
        periodEnd avg.averagePeriodUsecs samp.timeTag - avg.averagePeriodUsecs.tdiv 2) = 1

/-! ## Sums -/

section Sums

variable {avg : SampleAverager}

/-- Only the period, the variables and the number of values are read for the values of a sample. -/
structure SameConfig (avg other : SampleAverager) : Prop where
  period : other.averagePeriodUsecs = avg.averagePeriodUsecs
  ndataValues : other.ndataValues = avg.ndataValues
  inputs : other.inputs = avg.inputs

theorem SameConfig.refl (avg : SampleAverager) : SameConfig avg avg := ⟨rfl, rfl, rfl⟩

theorem SameConfig.trans {avg other third : SampleAverager} (hfirst : SameConfig avg other)
    (hsecond : SameConfig other third) : SameConfig avg third :=
  ⟨hsecond.period.trans hfirst.period, hsecond.ndataValues.trans hfirst.ndataValues,
    hsecond.inputs.trans hfirst.inputs⟩

theorem SameConfig.usedVariables {avg other : SampleAverager} (hsame : SameConfig avg other)
    (samp : ValueSample) : other.usedVariables samp = avg.usedVariables samp := by
  unfold SampleAverager.usedVariables
  rw [hsame.inputs]

theorem SameConfig.values {avg other : SampleAverager} (hsame : SameConfig avg other)
    (samp : ValueSample) : other.values samp = avg.values samp := by
  unfold SampleAverager.values
  rw [hsame.usedVariables]

/-- The sums are those of some values. -/
structure SumsOf (avg : SampleAverager) (values : List (ℕ × ℚ)) : Prop where
  sums : ∀ i, avg.sums i = (valuesAt i values).sum
  cnts : ∀ i, avg.cnts i = toInt32 (valuesAt i values).length

theorem SumsOf.zeroed (avg : SampleAverager) : avg.zeroed.SumsOf [] := by
  refine ⟨fun i => rfl, fun i => ?_⟩
  change (0 : ℤ) = toInt32 ((0 : ℕ) : ℤ)
  rw [toInt32_of_range (by norm_num) (by norm_num)]
  rfl

theorem valuesAt_append (i : ℕ) (first rest : List (ℕ × ℚ)) :
    valuesAt i (first ++ rest) = valuesAt i first ++ valuesAt i rest := by
  unfold valuesAt
  rw [List.filter_append, List.map_append]

theorem SumsOf.addValue {values : List (ℕ × ℚ)} (hsums : avg.SumsOf values) (value : ℕ × ℚ) :
    (avg.addValue value).SumsOf (values ++ [value]) := by
  have hat : ∀ i, valuesAt i (values ++ [value]) =
      valuesAt i values ++ if value.1 = i then [value.2] else [] := by
    intro i
    rw [valuesAt_append]
    congr 1
    unfold valuesAt
    by_cases hi : value.1 = i
    · simp [hi]
    · simp [hi]
  constructor
  · intro i
    unfold SampleAverager.addValue
    rw [hat i, List.sum_append]
    by_cases hi : value.1 = i
    · subst hi
      simp [hsums.sums]
    · simp [Function.update_of_ne (Ne.symm hi), hi, hsums.sums]
  · intro i
    unfold SampleAverager.addValue
    rw [hat i, List.length_append]
    by_cases hi : value.1 = i
    · subst hi
      simp [hsums.cnts, toInt32_toInt32_add]
    · simp [Function.update_of_ne (Ne.symm hi), hi, hsums.cnts]

/-- What adding values leaves as it is. -/
theorem foldl_addValue_config (avg : SampleAverager) (values : List (ℕ × ℚ)) :
    SameConfig avg (values.foldl addValue avg) ∧
      (values.foldl addValue avg).endTime = avg.endTime := by
  induction values generalizing avg with
  | nil => exact ⟨SameConfig.refl avg, rfl⟩
  | cons value values ih =>
      obtain ⟨hconfig, hend⟩ := ih (avg.addValue value)
      have hadd : SameConfig avg (avg.addValue value) := ⟨rfl, rfl, rfl⟩
      exact ⟨hadd.trans hconfig, hend⟩

theorem SumsOf.foldl_addValue {values : List (ℕ × ℚ)} (hsums : avg.SumsOf values)
    (more : List (ℕ × ℚ)) : (more.foldl SampleAverager.addValue avg).SumsOf (values ++ more) := by
  induction more generalizing avg values with
  | nil => simpa using hsums
  | cons value more ih =>
      have := ih (hsums.addValue value)
      rwa [List.append_assoc, List.singleton_append] at this

/-- The output for some values, with the counters of the source. -/
def countedOutputOf (avg : SampleAverager) (endTime : ℤ) (values : List (ℕ × ℚ)) :
    AverageOutput where
  timeTag := endTime - avg.averagePeriodUsecs.tdiv 2
  data := (List.range avg.ndataValues).map fun i =>
    if toInt32 (valuesAt i values).length > 0 then
      some ((valuesAt i values).sum / toInt32 (valuesAt i values).length)
    else none

theorem SumsOf.output_eq {avg other : SampleAverager} {values : List (ℕ × ℚ)}
    (hsame : SameConfig avg other) (hsums : other.SumsOf values) :
    other.output = avg.countedOutputOf other.endTime values := by
  unfold SampleAverager.output countedOutputOf
  rw [hsame.period, hsame.ndataValues, AverageOutput.mk.injEq]
  refine ⟨rfl, List.map_congr_left fun i _ => ?_⟩
  rw [hsums.sums, hsums.cnts]

/-- As long as the counters do not overflow the output has the means. -/
theorem countedOutputOf_eq {avg : SampleAverager} {values : List (ℕ × ℚ)} (endTime : ℤ)
    (hfew : ∀ i, (valuesAt i values).length < 2 ^ 31) :
    avg.countedOutputOf endTime values = avg.outputOf endTime values := by
  unfold countedOutputOf outputOf
  rw [AverageOutput.mk.injEq]
  refine ⟨rfl, List.map_congr_left fun i _ => ?_⟩
  rw [toInt32_of_range (by omega) (by exact_mod_cast hfew i)]
  unfold mean
  by_cases hnil : valuesAt i values = []
  · simp [hnil]
  · have hpos : 0 < (valuesAt i values).length := List.length_pos_iff.mpr hnil
    rw [if_pos (by exact_mod_cast hpos), if_neg hnil]
    push_cast
    rfl

end Sums

end SampleAverager

end Nidas.Core
