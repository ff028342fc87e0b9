import Nidas.Core.ResamplerSlot
import Nidas.Lib.Answers
import Nidas.Lib.MachineInt
import Nidas.Lib.Rounding

/-!
# Resampling at a rate

A `NearestResamplerAtRate` sends samples with evenly spaced time tags, with the values of its
variables that are nearest to them.  An output is sent when the first sample behind the next time
tag is received, or at a flush; without a value that is near enough nothing is sent, and the time
tag jumps ahead to that sample.

This file has the resampler and the progress of its time tags.  In every pass of the loop the time
tag gets larger, whether it is the next one or jumps ahead, and the loop ends when it is less than a
period before the sample.
-/

namespace Nidas.Core

open Lib

/-! ## The resampler -/

/-- The members of a `NearestResamplerAtRate`.  `started` is whether there is an output sample to be
filled. -/
structure NearestResamplerAtRate where
  deltatUsec : ℤ
  exactDeltatUsec : Bool
  middleTimeTags : Bool := true
  fillGaps : Bool := false
  ndataValues : ℕ
  nansVariable : Bool := true
  inputs : ℕ → Option (List AveragedVariable)
  outputTT : ℤ := 0
  nextOutputTT : ℤ := 0
  started : Bool := false
  slots : ℕ → ResamplerSlot := fun _ => {}

namespace NearestResamplerAtRate

/-- `NearestResamplerAtRate::setRate` -/
def setRate (resampler : NearestResamplerAtRate) (rate : ℚ) : NearestResamplerAtRate :=
  { resampler with
    deltatUsec := rint (1000000 / rate)
    exactDeltatUsec := rate ≤ 1 ∨ |1000000 / rate - rint (1000000 / rate)| < 1 / 100 }

/-- `_deltatUsecD10` -/
def deltatUsecD10 (resampler : NearestResamplerAtRate) : ℤ := resampler.deltatUsec.tdiv 10

/-- `_deltatUsecD2` -/
def deltatUsecD2 (resampler : NearestResamplerAtRate) : ℤ := resampler.deltatUsec.tdiv 2

/-- The time since the start of a period, counted from 1970 or from the start of the second. -/
def sinceStart (resampler : NearestResamplerAtRate) (tt : ℤ) : ℤ :=
  if resampler.exactDeltatUsec then tt.tmod resampler.deltatUsec
  else toUInt32 (tt.tmod 1000000) % resampler.deltatUsec

/-- The output time for a sample, when the resampler is started and when it jumps ahead. -/
def gridTime (resampler : NearestResamplerAtRate) (tt : ℤ) : ℤ :=
  if resampler.middleTimeTags then
    let ttx := tt + resampler.deltatUsecD2
    ttx - resampler.sinceStart ttx - resampler.deltatUsecD2
  else tt - resampler.sinceStart tt

/-- The output time after an output. -/
def followingTime (resampler : NearestResamplerAtRate) : ℤ :=
  if resampler.exactDeltatUsec then resampler.outputTT + resampler.deltatUsec
  else if resampler.middleTimeTags then
    let tmod := toUInt32 (resampler.nextOutputTT.tmod 1000000)
    let n := tmod / resampler.deltatUsec
    resampler.nextOutputTT - tmod + n * resampler.deltatUsec + resampler.deltatUsecD2
  else
    -- avoid round off errors
    let next := resampler.nextOutputTT + resampler.deltatUsecD2
    let tmod := toUInt32 (next.tmod 1000000)
    let n := tmod / resampler.deltatUsec
    next - tmod + n * resampler.deltatUsec

/-- The value for a variable. -/
def outValue (resampler : NearestResamplerAtRate) (i : ℕ) : Option ℚ :=
  let maxTT := resampler.nextOutputTT - resampler.deltatUsecD10
  let minTT := resampler.outputTT - resampler.deltatUsec + resampler.deltatUsecD10
  let slot := resampler.slots i
  if slot.samplesSince = 0 then if slot.prevTT < minTT then none else slot.prevData
  else if slot.nearTT > maxTT ∨ slot.nearTT < minTT then none else slot.nearData

/-- All values. -/
def outValues (resampler : NearestResamplerAtRate) : List (Option ℚ) :=
  (List.range resampler.ndataValues).map resampler.outValue

/-- `nonNANs` -/
def nonNANs (resampler : NearestResamplerAtRate) : ℕ :=
  resampler.outValues.countP Option.isSome

/-- The output sample. -/
def output (resampler : NearestResamplerAtRate) : ResampledOutput where
  timeTag := resampler.outputTT
  data := resampler.outValues ++
    if resampler.nansVariable then [some (resampler.nonNANs : ℚ)] else []

/-- A new output time, with the next one. -/
def moveTo (resampler : NearestResamplerAtRate) (outputTT : ℤ) : NearestResamplerAtRate :=
  { resampler with outputTT := outputTT, nextOutputTT := outputTT + resampler.deltatUsec }

/-- The candidates for a new output time. -/
def restarted (resampler : NearestResamplerAtRate) : NearestResamplerAtRate :=
  { resampler with slots := fun i => (resampler.slots i).restart }

/-- A pass of the loop in `sendSample` -/
def pass (resampler : NearestResamplerAtRate) (tt : ℤ) :
    NearestResamplerAtRate × List ResampledOutput :=
  if resampler.nonNANs > 0 ∨ resampler.fillGaps then
    (resampler.restarted.moveTo resampler.followingTime, [resampler.output])
  else (resampler.restarted.moveTo (resampler.gridTime tt), [])

/-- The loop in `sendSample` -/
def sendLoop (tt : ℤ) : ℕ → NearestResamplerAtRate →
    NearestResamplerAtRate × List ResampledOutput
  | 0, resampler => (resampler, [])
  | fuel + 1, resampler =>
      if tt > resampler.nextOutputTT then
        let (next, outs) := resampler.pass tt
        let (last, more) := sendLoop tt fuel next
        (last, outs ++ more)
      else (resampler, [])

/-- The output time is set at the first sample. -/
def start (resampler : NearestResamplerAtRate) (tt : ℤ) : NearestResamplerAtRate :=
  if resampler.started then resampler
  else { resampler.moveTo (resampler.gridTime tt) with started := true }

/-- `NearestResamplerAtRate::sendSample` -/
def sendSample (resampler : NearestResamplerAtRate) (tt : ℤ) :
    NearestResamplerAtRate × List ResampledOutput :=
  sendLoop tt (tt - (resampler.start tt).nextOutputTT).toNat (resampler.start tt)

/-- The part of `receive` for a value -/
def takeValue (tt : ℤ) (resampler : NearestResamplerAtRate) (value : ℕ × Option ℚ) :
    NearestResamplerAtRate :=
  match value.2 with
  | none => resampler
  | some _ =>
      let slot := resampler.slots value.1
      { resampler with
        slots := Function.update resampler.slots value.1
          (if tt < slot.prevTT then slot.takeEarlier resampler.outputTT tt value.2
          else if slot.samplesSince = 0 ∧ tt < resampler.outputTT then
            { slot with prevData := value.2, prevTT := tt }
          else slot.take resampler.outputTT tt value.2) }

/-- The values of a sample of type float or double and a known id. -/
def values? (resampler : NearestResamplerAtRate) (samp : ValueSample) :
    Option (List (ℕ × Option ℚ)) :=
  if samp.type ≠ .float ∧ samp.type ≠ .double then none
  else (resampler.inputs samp.id).map fun vars => resampledValues vars samp.data

/-- The outputs before the values of a sample are taken. -/
def ready (resampler : NearestResamplerAtRate) (tt : ℤ) :
    NearestResamplerAtRate × List ResampledOutput :=
  if tt > resampler.nextOutputTT then resampler.sendSample tt else (resampler, [])

/-- `NearestResamplerAtRate::receive`, with the samples that are distributed -/
def receive (resampler : NearestResamplerAtRate) (samp : ValueSample) :
    NearestResamplerAtRate × List ResampledOutput :=
  match resampler.values? samp with
  | none => (resampler, [])
  | some values =>
      (values.foldl (takeValue samp.timeTag) (resampler.ready samp.timeTag).1,
        (resampler.ready samp.timeTag).2)

/-- `NearestResamplerAtRate::flush` -/
def flush (resampler : NearestResamplerAtRate) :
    NearestResamplerAtRate × List ResampledOutput :=
  resampler.sendSample (resampler.nextOutputTT + 1)

/-- All outputs for a sequence of samples that is ended by a flush. -/
def outputs (resampler : NearestResamplerAtRate) (samples : List ValueSample) :
    List ResampledOutput :=
  (answers receive resampler samples).flatten ++ (afterCalls receive resampler samples).flush.2

/-! ## Output times -/

/-- What is not changed by a run. -/
structure SameConfig (resampler other : NearestResamplerAtRate) : Prop where
  deltatUsec : other.deltatUsec = resampler.deltatUsec
  exactDeltatUsec : other.exactDeltatUsec = resampler.exactDeltatUsec
  middleTimeTags : other.middleTimeTags = resampler.middleTimeTags
  fillGaps : other.fillGaps = resampler.fillGaps
  ndataValues : other.ndataValues = resampler.ndataValues
  inputs : other.inputs = resampler.inputs

theorem SameConfig.refl (resampler : NearestResamplerAtRate) : SameConfig resampler resampler :=
  ⟨rfl, rfl, rfl, rfl, rfl, rfl⟩

theorem SameConfig.trans {resampler other third : NearestResamplerAtRate}
    (hfirst : SameConfig resampler other) (hsecond : SameConfig other third) :
    SameConfig resampler third :=
  ⟨hsecond.deltatUsec.trans hfirst.deltatUsec,
    hsecond.exactDeltatUsec.trans hfirst.exactDeltatUsec,
    hsecond.middleTimeTags.trans hfirst.middleTimeTags, hsecond.fillGaps.trans hfirst.fillGaps,
    hsecond.ndataValues.trans hfirst.ndataValues, hsecond.inputs.trans hfirst.inputs⟩

/-- A time that an output can have, if the period is exact. -/
def OnGrid (resampler : NearestResamplerAtRate) (time : ℤ) : Prop :=
  resampler.deltatUsec ∣ time + if resampler.middleTimeTags then resampler.deltatUsecD2 else 0

/-- The output times of a resampler that is started. -/
structure Running (resampler : NearestResamplerAtRate) : Prop where
  period_pos : 0 < resampler.deltatUsec
  started : resampler.started = true
  next : resampler.nextOutputTT = resampler.outputTT + resampler.deltatUsec
  onGrid : resampler.exactDeltatUsec = true → resampler.OnGrid resampler.outputTT

/-- The output times get on, and the outputs are between them. -/
structure Progress (resampler last : NearestResamplerAtRate) (outs : List ResampledOutput) :
    Prop where
  config : SameConfig resampler last
  running : last.Running
  le : resampler.outputTT ≤ last.outputTT
  between : ∀ out ∈ outs, resampler.outputTT ≤ out.timeTag ∧ out.timeTag < last.outputTT
  onGrid : resampler.exactDeltatUsec = true → ∀ out ∈ outs, resampler.OnGrid out.timeTag
  sorted : (outs.map ResampledOutput.timeTag).Pairwise (· < ·)

section Progress

variable {resampler last : NearestResamplerAtRate} {tt : ℤ} {outs more : List ResampledOutput}

theorem SameConfig.onGrid_iff {other : NearestResamplerAtRate}
    (hsame : SameConfig resampler other) {time : ℤ} :
    other.OnGrid time ↔ resampler.OnGrid time := by
  unfold OnGrid deltatUsecD2
  rw [hsame.deltatUsec, hsame.middleTimeTags]

theorem Progress.refl (hrunning : resampler.Running) : Progress resampler resampler [] :=
  ⟨SameConfig.refl _, hrunning, le_refl _, by simp, by simp, List.Pairwise.nil⟩

theorem Progress.trans {third : NearestResamplerAtRate} (hfirst : Progress resampler last outs)
    (hsecond : Progress last third more) : Progress resampler third (outs ++ more) := by
  have hle := hfirst.le
  have hle' := hsecond.le
  refine ⟨hfirst.config.trans hsecond.config, hsecond.running, hle.trans hle', ?_, ?_, ?_⟩
  · intro out hout
    rcases List.mem_append.mp hout with hold | hnew
    · have := hfirst.between out hold
      omega
    · have := hsecond.between out hnew
      omega
  · intro hexact out hout
    rcases List.mem_append.mp hout with hold | hnew
    · exact hfirst.onGrid hexact out hold
    · rw [← hfirst.config.onGrid_iff]
      exact hsecond.onGrid (hfirst.config.exactDeltatUsec.trans hexact) out hnew
  · rw [List.map_append, List.pairwise_append]
    refine ⟨hfirst.sorted, hsecond.sorted, ?_⟩
    intro tag htag tag' htag'
    obtain ⟨out, hout, rfl⟩ := List.mem_map.mp htag
    obtain ⟨out', hout', rfl⟩ := List.mem_map.mp htag'
    have := hfirst.between out hout
    have := hsecond.between out' hout'
    omega

theorem sinceStart_lt (hperiod : 0 < resampler.deltatUsec) (tt : ℤ) :
    resampler.sinceStart tt < resampler.deltatUsec := by
  unfold sinceStart
  split
  · exact Int.tmod_lt_of_pos tt hperiod
  · exact Int.emod_lt_of_pos _ hperiod

/-- The output time for a sample is less than a period before it. -/
theorem lt_gridTime_add (hperiod : 0 < resampler.deltatUsec) (tt : ℤ) :
    tt < resampler.gridTime tt + resampler.deltatUsec := by
  unfold gridTime
  split
  · have := sinceStart_lt hperiod (tt + resampler.deltatUsecD2)
    dsimp only
    omega
  · have := sinceStart_lt hperiod tt
    omega

theorem onGrid_gridTime (hexact : resampler.exactDeltatUsec = true) (tt : ℤ) :
    resampler.OnGrid (resampler.gridTime tt) := by
  have hdvd : ∀ time, resampler.deltatUsec ∣ time - resampler.sinceStart time := by
    intro time
    unfold sinceStart
    rw [if_pos hexact]
    exact Int.dvd_self_sub_tmod
  unfold OnGrid gridTime
  split
  · dsimp only
    rw [sub_add_cancel]
    exact hdvd _
  · rw [add_zero]
    exact hdvd _

theorem deltatUsecD2_nonneg (hperiod : 0 < resampler.deltatUsec) : 0 ≤ resampler.deltatUsecD2 :=
  Int.tdiv_nonneg hperiod.le (by norm_num)

/-- The whole periods of a second are less than a period short of the time. -/
theorem lt_ediv_mul_add (hperiod : 0 < resampler.deltatUsec) (time : ℤ) :
    time < time / resampler.deltatUsec * resampler.deltatUsec + resampler.deltatUsec := by
  have := Int.mul_ediv_add_emod time resampler.deltatUsec
  have := Int.emod_lt_of_pos time hperiod
  rw [mul_comm]
  omega

theorem lt_followingTime (hrunning : resampler.Running) :
    resampler.outputTT < resampler.followingTime := by
  have hperiod := hrunning.period_pos
  have hnext := hrunning.next
  have hhalf := deltatUsecD2_nonneg hperiod
  unfold followingTime
  split
  · omega
  · split
    · have := lt_ediv_mul_add hperiod (toUInt32 (resampler.nextOutputTT.tmod 1000000))
      dsimp only
      omega
    · have := lt_ediv_mul_add hperiod
        (toUInt32 ((resampler.nextOutputTT + resampler.deltatUsecD2).tmod 1000000))
      dsimp only
      omega

theorem onGrid_followingTime (hrunning : resampler.Running)
    (hexact : resampler.exactDeltatUsec = true) : resampler.OnGrid resampler.followingTime := by
  unfold OnGrid followingTime
  rw [if_pos hexact, add_right_comm]
  exact dvd_add (hrunning.onGrid hexact) (dvd_refl _)

theorem running_moveTo (resampler : NearestResamplerAtRate) (hperiod : 0 < resampler.deltatUsec)
    (hstarted : resampler.started = true) {time : ℤ}
    (htime : resampler.exactDeltatUsec = true → resampler.OnGrid time) :
    (resampler.moveTo time).Running :=
  ⟨hperiod, hstarted, rfl, htime⟩

/-- **A pass of the loop gets on.** -/
theorem progress_pass (hrunning : resampler.Running) (htt : tt > resampler.nextOutputTT) :
    Progress resampler (resampler.pass tt).1 (resampler.pass tt).2 ∧
      resampler.outputTT < (resampler.pass tt).1.outputTT := by
  have hperiod := hrunning.period_pos
  have hnext := hrunning.next
  unfold pass
  split
  · have hlt := lt_followingTime hrunning
    refine ⟨⟨⟨rfl, rfl, rfl, rfl, rfl, rfl⟩, ?_, hlt.le, ?_, ?_, List.pairwise_singleton _ _⟩, hlt⟩
    · have hgrid : resampler.exactDeltatUsec = true → resampler.OnGrid resampler.followingTime :=
        onGrid_followingTime hrunning
      exact running_moveTo resampler.restarted hperiod hrunning.started hgrid
    · intro out hout
      rw [List.mem_singleton.mp hout]
      exact ⟨le_refl _, hlt⟩
    · intro hexact out hout
      rw [List.mem_singleton.mp hout]
      exact hrunning.onGrid hexact
  · have hlt : resampler.outputTT < resampler.gridTime tt := by
      have := lt_gridTime_add hperiod tt
      omega
    refine ⟨⟨⟨rfl, rfl, rfl, rfl, rfl, rfl⟩, ?_, hlt.le, by simp, by simp, List.Pairwise.nil⟩, hlt⟩
    have hgrid : resampler.exactDeltatUsec = true → resampler.OnGrid (resampler.gridTime tt) :=
      fun hexact => onGrid_gridTime hexact tt
    exact running_moveTo resampler.restarted hperiod hrunning.started hgrid

/-- **The loop ends**, when the next output time is not before the sample. -/
theorem progress_sendLoop {fuel : ℕ} (hrunning : resampler.Running)
    (hfuel : (tt - resampler.nextOutputTT).toNat ≤ fuel) :
    Progress resampler (sendLoop tt fuel resampler).1 (sendLoop tt fuel resampler).2 ∧
      tt ≤ (sendLoop tt fuel resampler).1.nextOutputTT := by
  induction fuel generalizing resampler with
  | zero => exact ⟨Progress.refl hrunning, by dsimp only [sendLoop]; omega⟩
  | succ fuel ih =>
      by_cases htt : tt > resampler.nextOutputTT
      · obtain ⟨hpass, hlt⟩ := progress_pass hrunning htt
        have hnext := hrunning.next
        have hnext' := hpass.running.next
        rw [hpass.config.deltatUsec] at hnext'
        obtain ⟨hrest, hend⟩ := ih hpass.running (by omega)
        rw [sendLoop, if_pos htt]
        exact ⟨hpass.trans hrest, hend⟩
      · rw [sendLoop, if_neg htt]
        exact ⟨Progress.refl hrunning, not_lt.mp htt⟩

end Progress

/-! ## Runs -/

/-- A resampler before the first sample. -/
structure Fresh (resampler : NearestResamplerAtRate) : Prop where
  period_pos : 0 < resampler.deltatUsec
  started : resampler.started = false
  outputTT : resampler.outputTT = 0
  nextOutputTT : resampler.nextOutputTT = 0
  slots : resampler.slots = fun _ => {}

section Run

variable {resampler : NearestResamplerAtRate} {tt : ℤ} {outs : List ResampledOutput}

theorem start_of_running (hrunning : resampler.Running) : resampler.start tt = resampler :=
  if_pos hrunning.started

theorem running_start (tt : ℤ) (hperiod : 0 < resampler.deltatUsec)
    (hstarted : resampler.started = false) : (resampler.start tt).Running := by
  have hstart : resampler.start tt =
      { resampler.moveTo (resampler.gridTime tt) with started := true } := by
    unfold start
    rw [hstarted]
    rfl
  rw [hstart]
  exact ⟨hperiod, rfl, rfl, fun hexact => onGrid_gridTime hexact tt⟩

theorem start_config : SameConfig resampler (resampler.start tt) := by
  unfold start
  split
  · exact SameConfig.refl resampler
  · exact ⟨rfl, rfl, rfl, rfl, rfl, rfl⟩

/-- **The loop of a call ends**, whatever the state is. -/
theorem progress_sendSample (hrunning : (resampler.start tt).Running) :
    Progress (resampler.start tt) (resampler.sendSample tt).1 (resampler.sendSample tt).2 ∧
      tt ≤ (resampler.sendSample tt).1.nextOutputTT :=
  progress_sendLoop hrunning (le_refl _)

/-- The values of a sample do not change the output times. -/
theorem takeValue_frame (resampler : NearestResamplerAtRate) (tt : ℤ) (value : ℕ × Option ℚ) :
    ∃ slots, takeValue tt resampler value = { resampler with slots := slots } := by
  unfold takeValue
  split
  · exact ⟨resampler.slots, rfl⟩
  · exact ⟨_, rfl⟩

theorem foldl_takeValue_frame (resampler : NearestResamplerAtRate) (tt : ℤ)
    (values : List (ℕ × Option ℚ)) :
    ∃ slots, values.foldl (takeValue tt) resampler = { resampler with slots := slots } := by
  induction values generalizing resampler with
  | nil => exact ⟨resampler.slots, rfl⟩
  | cons value values ih =>
      obtain ⟨slots, hvalue⟩ := takeValue_frame resampler tt value
      obtain ⟨slots', hvalues⟩ := ih (takeValue tt resampler value)
      refine ⟨slots', ?_⟩
      rw [List.foldl_cons, hvalues, hvalue]

theorem Running.withSlots (hrunning : resampler.Running) (slots : ℕ → ResamplerSlot) :
    ({ resampler with slots := slots } : NearestResamplerAtRate).Running :=
  ⟨hrunning.period_pos, hrunning.started, hrunning.next, hrunning.onGrid⟩

/-- The outputs so far, of a resampler that is started. -/
structure Ran (start resampler : NearestResamplerAtRate) (outs : List ResampledOutput) : Prop where
  config : SameConfig start resampler
  running : resampler.Running
  before : ∀ out ∈ outs, out.timeTag < resampler.outputTT
  onGrid : start.exactDeltatUsec = true → ∀ out ∈ outs, start.OnGrid out.timeTag
  sorted : (outs.map ResampledOutput.timeTag).Pairwise (· < ·)

variable {start : NearestResamplerAtRate}

theorem Ran.progress {last : NearestResamplerAtRate} {more : List ResampledOutput}
    (hran : Ran start resampler outs) (hprogress : Progress resampler last more) :
    Ran start last (outs ++ more) := by
  have hle := hprogress.le
  refine ⟨hran.config.trans hprogress.config, hprogress.running, ?_, ?_, ?_⟩
  · intro out hout
    rcases List.mem_append.mp hout with hold | hnew
    · exact (hran.before out hold).trans_le hle
    · exact (hprogress.between out hnew).2
  · intro hexact out hout
    rcases List.mem_append.mp hout with hold | hnew
    · exact hran.onGrid hexact out hold
    · rw [← hran.config.onGrid_iff]
      exact hprogress.onGrid (hran.config.exactDeltatUsec.trans hexact) out hnew
  · rw [List.map_append, List.pairwise_append]
    refine ⟨hran.sorted, hprogress.sorted, ?_⟩
    intro tag htag tag' htag'
    obtain ⟨out, hout, rfl⟩ := List.mem_map.mp htag
    obtain ⟨out', hout', rfl⟩ := List.mem_map.mp htag'
    exact (hran.before out hout).trans_le (hprogress.between out' hout').1

/-- A resampler that is not started. -/
structure Waits (start resampler : NearestResamplerAtRate) : Prop where
  config : SameConfig start resampler
  started : resampler.started = false
  nextOutputTT : resampler.nextOutputTT = 0

/-- The outputs so far: there are none as long as the resampler is not started. -/
def RanOrWaits (start resampler : NearestResamplerAtRate) (outs : List ResampledOutput) : Prop :=
  Waits start resampler ∧ outs = [] ∨ Ran start resampler outs

theorem RanOrWaits.started (hperiod : 0 < start.deltatUsec)
    (hran : RanOrWaits start resampler outs) (tt : ℤ) : Ran start (resampler.start tt) outs := by
  rcases hran with ⟨hwaits, rfl⟩ | hran
  · have hperiod' : 0 < resampler.deltatUsec := by
      rw [hwaits.config.deltatUsec]
      exact hperiod
    exact ⟨hwaits.config.trans start_config, running_start tt hperiod' hwaits.started, by simp,
      by simp, List.Pairwise.nil⟩
  · rw [start_of_running hran.running]
    exact hran

/-- The outputs of a call of `sendSample`, and its end -/
theorem RanOrWaits.sendSample (hperiod : 0 < start.deltatUsec)
    (hran : RanOrWaits start resampler outs) (tt : ℤ) :
    Ran start (resampler.sendSample tt).1 (outs ++ (resampler.sendSample tt).2) ∧
      tt ≤ (resampler.sendSample tt).1.nextOutputTT := by
  have hstarted := hran.started hperiod tt
  obtain ⟨hprogress, hend⟩ := progress_sendSample hstarted.running
  exact ⟨hstarted.progress hprogress, hend⟩

theorem RanOrWaits.withSlots (hran : RanOrWaits start resampler outs)
    (slots : ℕ → ResamplerSlot) : RanOrWaits start { resampler with slots := slots } outs := by
  rcases hran with ⟨hwaits, hnone⟩ | hran
  · exact Or.inl ⟨⟨hwaits.config.trans ⟨rfl, rfl, rfl, rfl, rfl, rfl⟩, hwaits.started,
      hwaits.nextOutputTT⟩, hnone⟩
  · exact Or.inr ⟨hran.config.trans ⟨rfl, rfl, rfl, rfl, rfl, rfl⟩, hran.running.withSlots slots,
      hran.before, hran.onGrid, hran.sorted⟩

theorem RanOrWaits.receive (hperiod : 0 < start.deltatUsec)
    (hran : RanOrWaits start resampler outs) (samp : ValueSample) :
    RanOrWaits start (resampler.receive samp).1 (outs ++ (resampler.receive samp).2) := by
  unfold NearestResamplerAtRate.receive
  split
  · rw [List.append_nil]
    exact hran
  · next values _ =>
      have hready : RanOrWaits start (resampler.ready samp.timeTag).1
          (outs ++ (resampler.ready samp.timeTag).2) := by
        unfold ready
        split
        · exact Or.inr (hran.sendSample hperiod samp.timeTag).1
        · rw [List.append_nil]
          exact hran
      obtain ⟨slots, hvalues⟩ :=
        foldl_takeValue_frame (resampler.ready samp.timeTag).1 samp.timeTag values
      dsimp only
      rw [hvalues]
      exact hready.withSlots slots

/-- **The outputs of a run.** -/
theorem ranOrWaits_run (hfresh : start.Fresh) (samples : List ValueSample) :
    RanOrWaits start (afterCalls NearestResamplerAtRate.receive start samples)
      (answers NearestResamplerAtRate.receive start samples).flatten := by
  induction samples using List.reverseRecOn with
  | nil => exact Or.inl ⟨⟨SameConfig.refl start, hfresh.started, hfresh.nextOutputTT⟩, rfl⟩
  | append_singleton samples samp ih =>
      rw [afterCalls_concat, flatten_answers_concat]
      exact ih.receive hfresh.period_pos samp

end Run

end NearestResamplerAtRate

end Nidas.Core
