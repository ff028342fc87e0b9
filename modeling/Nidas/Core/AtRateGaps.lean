import Nidas.Core.AtRateValues

/-!
# Gaps at a rate

Without filling of gaps a `NearestResamplerAtRate` should still send an output for every time of its
grid that a value is near to, from the first output on.

## Strategy

A time on the grid that is before the output time was sent, or no value is within half a period of
it (`Covered`).  When the time tag jumps ahead, there is no value near to the output time that is
given up, and the times that are jumped over are later than all values, except for the next one: a
value in the last tenth of the period is too far from the output time, and can be all there is for
the next one.  If the sample is so late that the next one is jumped over, the value is dropped
(`Drops`).

After an output nothing can be dropped any more by the same sample, since all values are before the
new output time.
-/

namespace Nidas.Core

open Lib

namespace NearestResamplerAtRate

/-! ## Jumps -/

/-- There is no value for the output time, and the jump ahead to a sample goes beyond the next one,
that a value is within half a period of. -/
def Drops (resampler : NearestResamplerAtRate) (tt : ℤ) : Prop :=
  resampler.nonNANs = 0 ∧ resampler.outputTT + 2 * resampler.deltatUsec ≤ tt ∧
    ∃ k < resampler.ndataValues, (resampler.slots k).prevData ≠ none ∧
      2 * (resampler.outputTT + resampler.deltatUsec - (resampler.slots k).prevTT) ≤
        resampler.deltatUsec

instance (resampler : NearestResamplerAtRate) (tt : ℤ) : Decidable (resampler.Drops tt) :=
  inferInstanceAs (Decidable (_ ∧ _ ∧ _))

/-- After the first output no value is dropped at a sample. -/
def KeepsValues (start : NearestResamplerAtRate) (before : List ValueSample)
    (samp : ValueSample) : Prop :=
  start.values? samp ≠ none → (answers receive start before).flatten ≠ [] →
    ¬ (afterCalls receive start before).Drops samp.timeTag

instance (start : NearestResamplerAtRate) (before : List ValueSample) (samp : ValueSample) :
    Decidable (KeepsValues start before samp) :=
  inferInstanceAs (Decidable (_ → _))

/-- A time that was not sent, from the first output on and before the output time, has no value
within half a period. -/
def Covered (start resampler : NearestResamplerAtRate) (items : ℕ → List (ℤ × Option ℚ))
    (outs : List ResampledOutput) : Prop :=
  ∀ time, start.OnGrid time → (∃ first, outs.head? = some first ∧ first.timeTag ≤ time) →
    time < resampler.outputTT → time ∉ outs.map ResampledOutput.timeTag →
      ∀ k < start.ndataValues, ∀ item ∈ items k, start.deltatUsec < 2 * |item.1 - time|

section Jump

variable {start resampler : NearestResamplerAtRate} {tt : ℤ}
  {items : ℕ → List (ℤ × Option ℚ)} {outs : List ResampledOutput}

/-- Times on the grid are whole periods apart. -/
theorem OnGrid.add_le {first second : ℤ} (hfirst : start.OnGrid first)
    (hsecond : start.OnGrid second) (hlt : first < second) :
    first + start.deltatUsec ≤ second := by
  have hdvd : start.deltatUsec ∣ second - first := by
    have hsub := dvd_sub hsecond hfirst
    rw [add_sub_add_right_eq_sub] at hsub
    exact hsub
  have := Int.le_of_dvd (by omega) hdvd
  omega

/-- More than the reach of a value is more than half a period. -/
theorem lt_two_mul_of_reach (hperiod : 0 < start.deltatUsec) {distance : ℤ}
    (hfar : start.deltatUsec - start.deltatUsecD10 < distance) :
    start.deltatUsec < 2 * distance := by
  unfold deltatUsecD10 at hfar
  rw [Int.tdiv_eq_ediv_of_nonneg hperiod.le] at hfar
  omega

/-- Without a value in the output there is none near to it. -/
theorem far_of_nonNANs_eq_zero (htracks : resampler.Tracks items) (hrunning : resampler.Running)
    (hnone : resampler.nonNANs = 0) {k : ℕ} (hk : k < resampler.ndataValues) :
    ∀ item ∈ items k, resampler.deltatUsec < 2 * |item.1 - resampler.outputTT| := by
  have hval : resampler.outValue k = none := by
    unfold nonNANs outValues at hnone
    rw [List.countP_eq_zero] at hnone
    have hnot := hnone (resampler.outValue k)
      (List.mem_map_of_mem (List.mem_range.mpr hk))
    simpa using hnot
  have hright := htracks.rightValue hrunning k
  rw [hval] at hright
  intro item hitem
  exact lt_two_mul_of_reach hrunning.period_pos (hright item hitem)

/-- If nothing is dropped, there is no value near to the next output time either. -/
theorem far_of_not_drops (htracks : resampler.Tracks items) (hrunning : resampler.Running)
    (hnone : resampler.nonNANs = 0) (hkeeps : ¬ resampler.Drops tt)
    (hbeyond : resampler.outputTT + 2 * resampler.deltatUsec ≤ tt) {k : ℕ}
    (hk : k < resampler.ndataValues) :
    ∀ item ∈ items k,
      resampler.deltatUsec < 2 * |item.1 - (resampler.outputTT + resampler.deltatUsec)| := by
  intro item hitem
  have hnext := hrunning.next
  rcases htracks.prev k with ⟨hnil, -⟩ | hlatest
  · rw [hnil] at hitem
    cases hitem
  · have hprev : resampler.deltatUsec <
        2 * (resampler.outputTT + resampler.deltatUsec - (resampler.slots k).prevTT) := by
      by_contra hnear
      exact hkeeps ⟨hnone, hbeyond, k, hk, htracks.isValue k _ hlatest.1, not_lt.mp hnear⟩
    have hle := hlatest.2 item hitem
    have := htracks.le_next k item hitem
    dsimp only at hle
    rw [abs_of_nonpos (by omega)]
    omega

/-- Nothing is dropped when all values are before the output time. -/
theorem not_drops_pass (htracks : resampler.Tracks items) (hrunning : resampler.Running)
    (hexact : resampler.exactDeltatUsec = true) (hpos : 0 < tt)
    (htt : tt > resampler.nextOutputTT) : ¬ (resampler.pass tt).1.Drops tt := by
  rintro ⟨-, -, k, -, hdata, hnear⟩
  have hnext := htracks.pass hrunning hexact hpos htt
  have hperiod := (progress_pass hrunning htt).1.running.period_pos
  have hsince : ((resampler.pass tt).1.slots k).samplesSince = 0 := by
    rw [pass_slots]
    rfl
  rcases (hnext.follows k).before hsince with ⟨-, hnone⟩ | ⟨-, hle⟩
  · exact hdata hnone
  · omega

/-- **A pass of the loop** covers the times up to the new output time. -/
theorem Covered.pass (hcovered : Covered start resampler items outs)
    (hsame : SameConfig start resampler) (htracks : resampler.Tracks items)
    (hrunning : resampler.Running) (hexact : start.exactDeltatUsec = true) (hpos : 0 < tt)
    (hkeeps : outs ≠ [] → ¬ resampler.Drops tt) :
    Covered start (resampler.pass tt).1 items (outs ++ (resampler.pass tt).2) := by
  have hnext := hrunning.next
  have hperiod := hrunning.period_pos
  have hexact' : resampler.exactDeltatUsec = true := hsame.exactDeltatUsec.trans hexact
  have hown : start.OnGrid resampler.outputTT :=
    hsame.onGrid_iff.mp (hrunning.onGrid hexact')
  intro time hgrid hfirst hlt hnot k hk item hitem
  have hk' : k < resampler.ndataValues := by
    rw [hsame.ndataValues]
    exact hk
  have hdt := hsame.deltatUsec
  by_cases hsends : resampler.nonNANs > 0 ∨ resampler.fillGaps = true
  · -- an output: its time is the only new one
    have hpass : resampler.pass tt =
        (resampler.restarted.moveTo resampler.followingTime, [resampler.output]) := if_pos hsends
    have hmove : (resampler.pass tt).1.outputTT = resampler.outputTT + resampler.deltatUsec := by
      rw [hpass]
      change resampler.followingTime = _
      unfold followingTime
      rw [if_pos hexact']
    rw [hpass] at hfirst hnot
    rw [hmove] at hlt
    have hne : time ≠ resampler.outputTT := by
      rintro rfl
      apply hnot
      rw [List.map_append]
      exact List.mem_append_right _ List.mem_cons_self
    have hbefore : time < resampler.outputTT := by
      by_contra hge
      have := hown.add_le hgrid (by omega)
      omega
    obtain ⟨first, hhead, hle⟩ := hfirst
    cases outs with
    | nil =>
        -- the first output is this one
        cases hhead
        have : resampler.output.timeTag = resampler.outputTT := rfl
        omega
    | cons out rest =>
        refine hcovered time hgrid ⟨first, hhead, hle⟩ hbefore ?_ k hk item hitem
        intro hmem
        apply hnot
        rw [List.map_append]
        exact List.mem_append_left _ hmem
  · -- a jump
    have hpass : resampler.pass tt =
        (resampler.restarted.moveTo (resampler.gridTime tt), []) := if_neg hsends
    have hnone : resampler.nonNANs = 0 := by
      by_contra hsome
      exact hsends (Or.inl (Nat.pos_of_ne_zero hsome))
    rw [hpass, List.append_nil] at hfirst hnot
    have hjump : time < resampler.gridTime tt := by
      rw [hpass] at hlt
      exact hlt
    have houts : outs ≠ [] := by
      rintro rfl
      obtain ⟨first, hhead, -⟩ := hfirst
      cases hhead
    by_cases hbefore : time < resampler.outputTT
    · exact hcovered time hgrid hfirst hbefore hnot k hk item hitem
    · rcases eq_or_lt_of_le (not_lt.mp hbefore) with rfl | hlater
      · rw [← hdt]
        exact far_of_nonNANs_eq_zero htracks hrunning hnone hk' item hitem
      · have hstep := hown.add_le hgrid hlater
        have hitems := htracks.le_next k item hitem
        have hgridTime := gridTime_le hperiod hexact' hpos
        rw [← hdt] at hstep
        rcases eq_or_lt_of_le hstep with rfl | hfar
        · -- the next output time, that the jump goes beyond
          have hbeyond := hgrid.add_le
            (hsame.onGrid_iff.mp (onGrid_gridTime hexact' tt)) hjump
          rw [← hdt] at hbeyond
          rw [← hdt]
          exact far_of_not_drops htracks hrunning hnone (hkeeps houts) (by omega) hk' item hitem
        · have hgridNext : start.OnGrid (resampler.outputTT + resampler.deltatUsec) := by
            rw [hdt]
            exact onGrid_add hown
          have := hgridNext.add_le hgrid hfar
          rw [abs_of_nonpos (by omega)]
          omega

/-- **The loop.** -/
theorem Covered.sendLoop (fuel : ℕ) (hcovered : Covered start resampler items outs)
    (hsame : SameConfig start resampler) (htracks : resampler.Tracks items)
    (hrunning : resampler.Running) (hexact : start.exactDeltatUsec = true) (hpos : 0 < tt)
    (hkeeps : outs ≠ [] → ¬ resampler.Drops tt) :
    Covered start (sendLoop tt fuel resampler).1 items
      (outs ++ (sendLoop tt fuel resampler).2) := by
  induction fuel generalizing resampler outs with
  | zero =>
      rw [NearestResamplerAtRate.sendLoop, List.append_nil]
      exact hcovered
  | succ fuel ih =>
      by_cases htt : tt > resampler.nextOutputTT
      · have hprogress := (progress_pass hrunning htt).1
        have hexact' : resampler.exactDeltatUsec = true := hsame.exactDeltatUsec.trans hexact
        have hpass := hcovered.pass hsame htracks hrunning hexact hpos hkeeps
        have hrest := ih hpass (hsame.trans hprogress.config)
          (htracks.pass hrunning hexact' hpos htt) hprogress.running
          (fun _ => not_drops_pass htracks hrunning hexact' hpos htt)
        rw [NearestResamplerAtRate.sendLoop, if_pos htt]
        dsimp only
        rw [← List.append_assoc]
        exact hrest
      · rw [NearestResamplerAtRate.sendLoop, if_neg htt, List.append_nil]
        exact hcovered

end Jump

/-! ## Runs -/

section Run

variable {start : NearestResamplerAtRate} {before samples : List ValueSample}
  {resampler : NearestResamplerAtRate} {outs : List ResampledOutput} {samp : ValueSample}

/-- The resampler between two samples, with the outputs so far. -/
structure Covers (start : NearestResamplerAtRate) (before : List ValueSample)
    (resampler : NearestResamplerAtRate) (outs : List ResampledOutput) : Prop where
  sound : Sound start before resampler
  covered : Covered start resampler (start.heard before) outs
  waits : ¬ resampler.Running → outs = []
  reached : ∀ samp ∈ before, start.values? samp ≠ none →
    resampler.Running ∧ samp.timeTag ≤ resampler.nextOutputTT

/-- Before the values of a sample are taken. -/
theorem Covers.ready (hcovers : Covers start before resampler outs)
    (hperiod : 0 < start.deltatUsec) (hexact : start.exactDeltatUsec = true)
    (hpos : 0 < samp.timeTag) (hkeeps : outs ≠ [] → ¬ resampler.Drops samp.timeTag) :
    Covered start (resampler.ready samp.timeTag).1 (start.heard before)
      (outs ++ (resampler.ready samp.timeTag).2) := by
  unfold NearestResamplerAtRate.ready
  split
  · have hsame : SameConfig start (resampler.start samp.timeTag) :=
      hcovers.sound.config.trans start_config
    by_cases hrunning : resampler.Running
    · unfold NearestResamplerAtRate.sendSample
      rw [start_of_running hrunning]
      exact hcovers.covered.sendLoop _ hcovers.sound.config hcovers.sound.tracks hrunning hexact
        hpos hkeeps
    · -- the resampler is started, and there are no outputs before
      have hnone := hcovers.waits hrunning
      obtain ⟨hstarted, htracks, -⟩ := hcovers.sound.started hperiod hexact hpos
        (fun h => absurd h hrunning)
      subst hnone
      refine Covered.sendLoop _ ?_ hsame htracks hstarted hexact hpos (fun h => absurd rfl h)
      rintro time - ⟨first, hhead, -⟩
      cases hhead
  · rw [List.append_nil]
    exact hcovers.covered

/-- The values of a sample are not near to earlier times. -/
theorem Covered.concat (hcovered : Covered start resampler (start.heard before) outs)
    (hsame : SameConfig start resampler) (hrunning : resampler.Running)
    (hexact : start.exactDeltatUsec = true) (hle : resampler.outputTT ≤ samp.timeTag) :
    Covered start resampler (start.heard (before ++ [samp])) outs := by
  intro time hgrid hfirst hlt hnot k hk item hitem
  rw [heard_concat] at hitem
  rcases List.mem_append.mp hitem with hold | hnew
  · exact hcovered time hgrid hfirst hlt hnot k hk item hold
  · have hitem' : item ∈ start.heard [samp] k := by
      unfold heard
      rw [List.flatMap_singleton]
      exact hnew
    obtain ⟨other, hother, htime⟩ := exists_sample_of_mem_heard hitem'
    rw [List.mem_singleton] at hother
    subst hother
    have hown : start.OnGrid resampler.outputTT :=
      hsame.onGrid_iff.mp (hrunning.onGrid (hsame.exactDeltatUsec.trans hexact))
    have hfar := hgrid.add_le hown hlt
    have hperiod := hrunning.period_pos
    rw [hsame.deltatUsec] at hperiod
    rw [abs_of_nonneg (by omega)]
    omega

/-- **One sample.** -/
theorem Covers.receive (hcovers : Covers start before resampler outs)
    (hperiod : 0 < start.deltatUsec) (hexact : start.exactDeltatUsec = true)
    (hpos : 0 < samp.timeTag) (hlate : ∀ other ∈ before, other.timeTag ≤ samp.timeTag)
    (hfirst : ∀ value ∈ (start.values? samp).getD [], value.2 ≠ none →
      start.heard before value.1 = [] →
        (resampler.ready samp.timeTag).1.outputTT > samp.timeTag.tdiv 2)
    (hkeeps : start.values? samp ≠ none → outs ≠ [] → ¬ resampler.Drops samp.timeTag) :
    Covers start (before ++ [samp]) (resampler.receive samp).1
      (outs ++ (resampler.receive samp).2) := by
  have hsound := (hcovers.sound.receive hperiod hexact hpos hlate hfirst).1
  have hvalues : resampler.values? samp = start.values? samp := by
    unfold values?
    rw [hcovers.sound.config.inputs]
  cases hused : start.values? samp with
  | none =>
      have hreceive : resampler.receive samp = (resampler, []) := by
        unfold NearestResamplerAtRate.receive
        rw [hvalues, hused]
      have hheard : start.heard (before ++ [samp]) = start.heard before := by
        funext k
        rw [heard_concat, newItems, hused]
        exact List.append_nil _
      rw [hreceive] at hsound ⊢
      rw [List.append_nil]
      refine ⟨hsound, ?_, hcovers.waits, ?_⟩
      · rw [hheard]
        exact hcovers.covered
      · intro other hother hother'
        rcases List.mem_append.mp hother with hold | hnew
        · exact hcovers.reached other hold hother'
        · rw [List.mem_singleton.mp hnew] at hother'
          exact absurd hused hother'
  | some values =>
      have hreceive : resampler.receive samp =
          (values.foldl (takeValue samp.timeTag) (resampler.ready samp.timeTag).1,
            (resampler.ready samp.timeTag).2) := by
        unfold NearestResamplerAtRate.receive
        rw [hvalues, hused]
      obtain ⟨hconfig, hrunning, hend, hsent⟩ :=
        hcovers.sound.ready hperiod hexact hpos hlate
      have hcovered := hcovers.ready hperiod hexact hpos
        (hkeeps (by rw [hused]; exact Option.some_ne_none values))
      obtain ⟨slots, hslots⟩ :=
        foldl_takeValue_frame (resampler.ready samp.timeTag).1 samp.timeTag values
      rw [hreceive] at hsound ⊢
      dsimp only at hsound ⊢
      rw [hslots] at hsound ⊢
      refine ⟨hsound, ?_, fun h => absurd (hrunning.withSlots slots) h, ?_⟩
      · exact hcovered.concat hconfig hrunning hexact hsent.le
      · intro other hother _
        refine ⟨hrunning.withSlots slots, ?_⟩
        rcases List.mem_append.mp hother with hold | hnew
        · exact (hlate other hold).trans hend
        · rw [List.mem_singleton.mp hnew]
          exact hend

theorem Fresh.covers (hfresh : start.Fresh) : Covers start [] start [] := by
  refine ⟨hfresh.sound, ?_, fun _ => rfl, by simp⟩
  rintro time - ⟨first, hhead, -⟩
  cases hhead

theorem covers_run (hfresh : start.Fresh) (hexact : start.exactDeltatUsec = true)
    (hordered : samples.Pairwise fun first second => first.timeTag ≤ second.timeTag)
    (hfirst : AtEvery (FirstNear start) samples)
    (hkeeps : AtEvery (KeepsValues start) samples) :
    Covers start samples (afterCalls NearestResamplerAtRate.receive start samples)
      (answers NearestResamplerAtRate.receive start samples).flatten := by
  have hall : AtEvery (fun before samp => (FirstNear start before samp ∧
      KeepsValues start before samp) ∧ ∀ other ∈ before, other.timeTag ≤ samp.timeTag) samples :=
    fun before samp h => ⟨⟨hfirst before samp h, hkeeps before samp h⟩,
      forall_le_before hordered h⟩
  refine hall.invariant (fun before =>
    Covers start before (afterCalls NearestResamplerAtRate.receive start before)
      (answers NearestResamplerAtRate.receive start before).flatten) hfresh.covers ?_
    (List.prefix_refl samples)
  rintro before samp hcovers ⟨⟨hnear, hkeep⟩, hlate⟩
  rw [afterCalls_concat, flatten_answers_concat]
  exact hcovers.receive hfresh.period_pos hexact hnear.1 hlate hnear.2 hkeep

end Run

/-- Every time on the grid that a value is within half a period of, from the first output on, is
sent with the value of that variable, once there is a sample more than a period behind it. -/
def SendsNear (start : NearestResamplerAtRate) (samples : List ValueSample) : Prop :=
  ∀ first, (answers receive start samples).flatten.head? = some first →
    ∀ time, start.OnGrid time → first.timeTag ≤ time → ∀ k < start.ndataValues,
      (∃ item ∈ start.heard samples k, 2 * |item.1 - time| ≤ start.deltatUsec) →
      (∃ samp ∈ samples, start.values? samp ≠ none ∧ time + start.deltatUsec < samp.timeTag) →
        ∃ out ∈ (answers receive start samples).flatten, out.timeTag = time ∧
          ∃ x, out.data[k]? = some (some x)

/-- **No value is dropped in a run in which no jump goes beyond one, and the first value of each
variable is nearer to the output time than time zero.** -/
theorem sendsNear (start : NearestResamplerAtRate) (samples : List ValueSample)
    (hfresh : start.Fresh) (hexact : start.exactDeltatUsec = true)
    (hordered : samples.Pairwise fun first second => first.timeTag ≤ second.timeTag)
    (hfirst : AtEvery (FirstNear start) samples)
    (hkeeps : AtEvery (KeepsValues start) samples) : start.SendsNear samples := by
  rintro first hhead time hgrid hle k hk ⟨item, hitem, hnear⟩ ⟨samp, hsamp, hused, hlate⟩
  have hcovers := covers_run hfresh hexact hordered hfirst hkeeps
  obtain ⟨hrunning, hreached⟩ := hcovers.reached samp hsamp hused
  have hbefore : time < (afterCalls receive start samples).outputTT := by
    have hnext := hrunning.next
    rw [hcovers.sound.config.deltatUsec] at hnext
    omega
  have hsent : time ∈ ((answers receive start samples).flatten.map ResampledOutput.timeTag) := by
    by_contra hnot
    have := hcovers.covered time hgrid ⟨first, hhead, hle⟩ hbefore hnot k hk item hitem
    omega
  obtain ⟨out, hout, rfl⟩ := List.mem_map.mp hsent
  obtain ⟨val, hval, hright⟩ :=
    rightOutput_of_mem_answers hfresh hexact hordered hfirst hout k hk
  refine ⟨out, hout, rfl, ?_⟩
  cases val with
  | some x => exact ⟨x, hval⟩
  | none =>
      -- a value within half a period is near enough
      have := lt_two_mul_of_reach hfresh.period_pos (hright item hitem)
      omega

/-- Ten samples a second, without filling of gaps. -/
def tenWithGaps : NearestResamplerAtRate := { tenPerSecond with fillGaps := false }

theorem fresh_tenWithGaps : tenWithGaps.Fresh := ⟨by decide, rfl, rfl, rfl, rfl⟩

/-- A value in the middle of a period before a gap. -/
theorem sendsNear_tenWithGaps :
    tenWithGaps.SendsNear [⟨1000000, 1, .float, [some 1]⟩, ⟨1150000, 1, .float, [some 2]⟩,
      ⟨1500000, 1, .float, [some 3]⟩] :=
  sendsNear tenWithGaps _ fresh_tenWithGaps rfl (by decide) (by decide +kernel)
    (by decide +kernel)

/-- A value at the end of a period before a gap: it is five milliseconds before an output time, and
there is no output. -/
theorem sendsNear_tenWithGaps_dropped :
    (answers receive tenWithGaps [⟨1000000, 1, .float, [some 1]⟩,
        ⟨1195000, 1, .float, [some 2]⟩, ⟨1500000, 1, .float, [some 3]⟩]).flatten =
          [⟨1000000, [some 1, some 1]⟩] ∧
      ¬ tenWithGaps.SendsNear [⟨1000000, 1, .float, [some 1]⟩, ⟨1195000, 1, .float, [some 2]⟩,
        ⟨1500000, 1, .float, [some 3]⟩] := by
  have houts : (answers receive tenWithGaps [⟨1000000, 1, .float, [some 1]⟩,
      ⟨1195000, 1, .float, [some 2]⟩, ⟨1500000, 1, .float, [some 3]⟩]).flatten =
        [⟨1000000, [some 1, some 1]⟩] := by
    decide +kernel
  refine ⟨houts, ?_⟩
  intro hsends
  unfold SendsNear at hsends
  rw [houts] at hsends
  obtain ⟨out, hout, htime, -⟩ := hsends ⟨1000000, [some 1, some 1]⟩ rfl 1200000
    (by unfold OnGrid; decide +kernel) (by decide) 0 (by decide)
    ⟨(1195000, some 2), by decide +kernel, by decide +kernel⟩
    ⟨⟨1500000, 1, .float, [some 3]⟩, by decide, by decide +kernel, by decide⟩
  rw [List.mem_singleton.mp hout] at htime
  exact absurd htime (by decide)

end NearestResamplerAtRate

end Nidas.Core
