import Nidas.Core.NearestResamplerAtRate

/-!
# The values at a rate

The time tags of the outputs of a `NearestResamplerAtRate` should increase, and if the period is a
number of microseconds they should be on a grid, with the values of the variables that are nearest
to them.

## Strategy

Between two samples the candidates of a variable follow the values that are not NaN (`Tracks`), with
the output time as the target.  An output is only sent when a sample is more than a period behind
it, and so the values that come later are too far away to be nearer.

The first value of a variable is compared with a previous one at time zero that does not exist.  It
is taken for the nearest only if the output time is more than half of its time, which is so except
within the first two periods (`FirstNear`).
-/

namespace Nidas.Core

open Lib

namespace NearestResamplerAtRate

/-! ## What the outputs should be -/

/-- The values of a variable in a sample that are not NaN. -/
def newItems (start : NearestResamplerAtRate) (k : ℕ) (samp : ValueSample) :
    List (ℤ × Option ℚ) :=
  ((start.values? samp).getD []).filterMap fun value =>
    if value.1 = k then value.2.map fun x => (samp.timeTag, some x) else none

/-- The values of a variable in a run that are not NaN. -/
def heard (start : NearestResamplerAtRate) (samples : List ValueSample) (k : ℕ) :
    List (ℤ × Option ℚ) :=
  samples.flatMap (start.newItems k)

/-- A value of a nearest item that is near enough, or NaN if there is none that is near enough. -/
def RightValue (reach : ℤ) (items : List (ℤ × Option ℚ)) (time : ℤ) : Option ℚ → Prop
  | some x => ∃ item, IsNearest time items item ∧ item.2 = some x ∧ |item.1 - time| ≤ reach
  | none => ∀ item ∈ items, reach < |item.1 - time|

/-- An output with right values. -/
def RightOutput (start : NearestResamplerAtRate) (items : ℕ → List (ℤ × Option ℚ))
    (out : ResampledOutput) : Prop :=
  ∀ k < start.ndataValues, ∃ val, out.data[k]? = some val ∧
    RightValue (start.deltatUsec - start.deltatUsecD10) (items k) out.timeTag val

/-- The time tag is positive, and the first value of a variable is nearer to the output time than
time zero is. -/
def FirstNear (start : NearestResamplerAtRate) (before : List ValueSample) (samp : ValueSample) :
    Prop :=
  0 < samp.timeTag ∧ ∀ value ∈ (start.values? samp).getD [], value.2 ≠ none →
    start.heard before value.1 = [] →
      ((afterCalls receive start before).ready samp.timeTag).1.outputTT > samp.timeTag.tdiv 2

instance (start : NearestResamplerAtRate) (before : List ValueSample) (samp : ValueSample) :
    Decidable (FirstNear start before samp) :=
  inferInstanceAs (Decidable (_ ∧ _))

/-! ## Values -/

section Values

variable {resampler : NearestResamplerAtRate} {tt : ℤ} {items : ℕ → List (ℤ × Option ℚ)} {k : ℕ}

theorem rightValue_of_isNearest (reach : ℤ) {time : ℤ} {list : List (ℤ × Option ℚ)}
    {item : ℤ × Option ℚ} (hnearest : IsNearest time list item) (hsome : item.2 ≠ none) :
    RightValue reach list time (if |item.1 - time| ≤ reach then item.2 else none) := by
  split
  · next hnear =>
      obtain ⟨x, hx⟩ := Option.ne_none_iff_exists'.mp hsome
      rw [hx]
      exact ⟨item, hnearest, hx, hnear⟩
  · next hfar =>
      intro other hother
      exact (not_le.mp hfar).trans_le (hnearest.2 other hother)

/-- Items that are too far away can be added. -/
theorem RightValue.append {reach time : ℤ} {list more : List (ℤ × Option ℚ)} {val : Option ℚ}
    (hright : RightValue reach list time val)
    (hfar : ∀ item ∈ more, reach < |item.1 - time|) :
    RightValue reach (list ++ more) time val := by
  cases val with
  | none =>
      intro item hitem
      rcases List.mem_append.mp hitem with hold | hnew
      · exact hright item hold
      · exact hfar item hnew
  | some x =>
      obtain ⟨item, hnearest, hx, hnear⟩ := hright
      refine ⟨item, hnearest.append ?_, hx, hnear⟩
      intro other hother
      exact hnear.trans (hfar other hother).le

/-- The candidates follow the values that were received. -/
structure Tracks (resampler : NearestResamplerAtRate) (items : ℕ → List (ℤ × Option ℚ)) :
    Prop where
  follows : ∀ k, (resampler.slots k).Follows resampler.outputTT (items k)
  empty : ∀ k, items k = [] → (resampler.slots k).prevTT = 0
  isValue : ∀ k, ∀ item ∈ items k, item.2 ≠ none
  pos : ∀ k, ∀ item ∈ items k, 0 < item.1
  le_next : ∀ k, ∀ item ∈ items k, item.1 ≤ resampler.nextOutputTT

/-- The previous value is one that was received, or there is none. -/
theorem Tracks.prev (htracks : resampler.Tracks items) (k : ℕ) :
    items k = [] ∧ (resampler.slots k).prevTT = 0 ∧ (resampler.slots k).prevData = none ∨
      IsLatest (items k) ((resampler.slots k).prevTT, (resampler.slots k).prevData) := by
  by_cases hsince : (resampler.slots k).samplesSince = 0
  · rcases (htracks.follows k).before hsince with ⟨hnil, hdata⟩ | ⟨hlatest, -⟩
    · exact Or.inl ⟨hnil, htracks.empty k hnil, hdata⟩
    · exact Or.inr hlatest
  · exact Or.inr ((htracks.follows k).behind hsince).1

theorem Tracks.prevTT_nonneg (htracks : resampler.Tracks items) (k : ℕ) :
    0 ≤ (resampler.slots k).prevTT := by
  rcases htracks.prev k with ⟨-, hzero, -⟩ | hlatest
  · exact hzero.ge
  · exact (htracks.pos k _ hlatest.1).le

theorem Tracks.prevTT_le (htracks : resampler.Tracks items) (hpos : 0 < tt)
    (hlate : ∀ k, ∀ item ∈ items k, item.1 ≤ tt) (k : ℕ) :
    (resampler.slots k).prevTT ≤ tt := by
  rcases htracks.prev k with ⟨-, hzero, -⟩ | hlatest
  · rw [hzero]
    exact hpos.le
  · exact hlate k _ hlatest.1

/-- **The value that is sent is right.** -/
theorem Tracks.rightValue (htracks : resampler.Tracks items) (hrunning : resampler.Running)
    (k : ℕ) :
    RightValue (resampler.deltatUsec - resampler.deltatUsecD10) (items k) resampler.outputTT
      (resampler.outValue k) := by
  have hnext := hrunning.next
  unfold outValue
  dsimp only
  by_cases hsince : (resampler.slots k).samplesSince = 0
  · rw [if_pos hsince]
    rcases (htracks.follows k).before hsince with ⟨hnil, hdata⟩ | ⟨hlatest, hle⟩
    · rw [hdata, ite_self, hnil]
      intro item hitem
      cases hitem
    · have hright := rightValue_of_isNearest (resampler.deltatUsec - resampler.deltatUsecD10)
        (hlatest.isNearest hle) (htracks.isValue k _ hlatest.1)
      dsimp only at hright
      rw [abs_of_nonpos (by omega)] at hright
      by_cases hfar : (resampler.slots k).prevTT <
          resampler.outputTT - resampler.deltatUsec + resampler.deltatUsecD10
      · rw [if_neg (by omega)] at hright
        rw [if_pos hfar]
        exact hright
      · rw [if_pos (by omega)] at hright
        rw [if_neg hfar]
        exact hright
  · rw [if_neg hsince]
    obtain ⟨-, -, hnearest⟩ := (htracks.follows k).behind hsince
    have hright := rightValue_of_isNearest (resampler.deltatUsec - resampler.deltatUsecD10) hnearest
      (htracks.isValue k _ hnearest.1)
    dsimp only at hright
    have habs : |(resampler.slots k).nearTT - resampler.outputTT| ≤
        resampler.deltatUsec - resampler.deltatUsecD10 ↔
        ¬ ((resampler.slots k).nearTT > resampler.nextOutputTT - resampler.deltatUsecD10 ∨
          (resampler.slots k).nearTT <
            resampler.outputTT - resampler.deltatUsec + resampler.deltatUsecD10) := by
      rw [abs_le]
      omega
    by_cases hfar : (resampler.slots k).nearTT > resampler.nextOutputTT - resampler.deltatUsecD10 ∨
        (resampler.slots k).nearTT <
          resampler.outputTT - resampler.deltatUsec + resampler.deltatUsecD10
    · rw [if_neg (fun h => habs.mp h hfar)] at hright
      rw [if_pos hfar]
      exact hright
    · rw [if_pos (habs.mpr hfar)] at hright
      rw [if_neg hfar]
      exact hright

theorem output_data_getElem? (hk : k < resampler.ndataValues) :
    resampler.output.data[k]? = some (resampler.outValue k) := by
  unfold output outValues
  dsimp only
  rw [List.getElem?_append_left (by simpa using hk), List.getElem?_map, List.getElem?_range hk]
  rfl

theorem Tracks.rightOutput (htracks : resampler.Tracks items) (hrunning : resampler.Running) :
    resampler.RightOutput items resampler.output :=
  fun k hk => ⟨_, output_data_getElem? hk, htracks.rightValue hrunning k⟩

end Values

/-! ## One sample -/

section Sample

variable {resampler : NearestResamplerAtRate} {tt : ℤ} {items : ℕ → List (ℤ × Option ℚ)}

/-- The output time for a sample is not behind it. -/
theorem gridTime_le (hperiod : 0 < resampler.deltatUsec)
    (hexact : resampler.exactDeltatUsec = true) (hpos : 0 < tt) : resampler.gridTime tt ≤ tt := by
  have hhalf := deltatUsecD2_nonneg hperiod
  have hsince : ∀ time, 0 ≤ time → 0 ≤ resampler.sinceStart time := by
    intro time htime
    unfold sinceStart
    rw [if_pos hexact]
    exact Int.tmod_nonneg _ htime
  unfold gridTime
  split
  · have := hsince (tt + resampler.deltatUsecD2) (by omega)
    dsimp only
    omega
  · have := hsince tt hpos.le
    omega

/-- A jump ahead gets to the last time on the grid. -/
theorem le_gridTime (hperiod : 0 < resampler.deltatUsec)
    (hexact : resampler.exactDeltatUsec = true) {time : ℤ} (hgrid : resampler.OnGrid time)
    (hle : time ≤ tt) : time ≤ resampler.gridTime tt := by
  by_contra hlater
  have hdvd : resampler.deltatUsec ∣ time - resampler.gridTime tt := by
    have hsub := dvd_sub hgrid (onGrid_gridTime hexact tt)
    rw [add_sub_add_right_eq_sub] at hsub
    exact hsub
  have := Int.le_of_dvd (by omega) hdvd
  have := lt_gridTime_add hperiod tt
  omega

theorem onGrid_add (hgrid : resampler.OnGrid tt) :
    resampler.OnGrid (tt + resampler.deltatUsec) := by
  unfold OnGrid at hgrid ⊢
  rw [add_right_comm]
  exact dvd_add hgrid (dvd_refl _)

/-- After a pass the output time is on the other side of all values, and not behind the sample. -/
theorem pass_outputTT (hrunning : resampler.Running) (hexact : resampler.exactDeltatUsec = true)
    (hpos : 0 < tt) (htt : tt > resampler.nextOutputTT) :
    resampler.nextOutputTT ≤ (resampler.pass tt).1.outputTT ∧
      (resampler.pass tt).1.outputTT ≤ tt := by
  have hnext := hrunning.next
  unfold pass
  split
  · change resampler.nextOutputTT ≤ resampler.followingTime ∧ resampler.followingTime ≤ tt
    unfold followingTime
    rw [if_pos hexact]
    omega
  · change resampler.nextOutputTT ≤ resampler.gridTime tt ∧ resampler.gridTime tt ≤ tt
    refine ⟨?_, gridTime_le hrunning.period_pos hexact hpos⟩
    apply le_gridTime hrunning.period_pos hexact _ htt.le
    rw [hnext]
    exact onGrid_add (hrunning.onGrid hexact)

theorem pass_slots (resampler : NearestResamplerAtRate) (tt : ℤ) (k : ℕ) :
    (resampler.pass tt).1.slots k = (resampler.slots k).restart := by
  unfold pass
  split
  · rfl
  · rfl

theorem Tracks.pass (htracks : resampler.Tracks items) (hrunning : resampler.Running)
    (hexact : resampler.exactDeltatUsec = true) (hpos : 0 < tt)
    (htt : tt > resampler.nextOutputTT) : (resampler.pass tt).1.Tracks items := by
  have hlater := (pass_outputTT hrunning hexact hpos htt).1
  have hprogress := (progress_pass hrunning htt).1.running
  refine ⟨?_, ?_, htracks.isValue, htracks.pos, ?_⟩
  · intro k
    rw [pass_slots]
    apply (htracks.follows k).restart
    intro item hitem
    exact (htracks.le_next k item hitem).trans hlater
  · intro k hnil
    rw [pass_slots]
    exact htracks.empty k hnil
  · intro k item hitem
    have := htracks.le_next k item hitem
    have := hprogress.next
    have := hprogress.period_pos
    omega

/-- What the outputs before a sample are. -/
structure Sent (resampler last : NearestResamplerAtRate) (items : ℕ → List (ℤ × Option ℚ))
    (tt : ℤ) (outs : List ResampledOutput) : Prop where
  tracks : last.Tracks items
  le : last.outputTT ≤ tt
  right : ∀ out ∈ outs, resampler.RightOutput items out ∧ out.timeTag + resampler.deltatUsec < tt

theorem SameConfig.rightOutput_iff {other : NearestResamplerAtRate}
    (hsame : SameConfig resampler other) {out : ResampledOutput} :
    other.RightOutput items out ↔ resampler.RightOutput items out := by
  unfold RightOutput deltatUsecD10
  rw [hsame.ndataValues, hsame.deltatUsec]

theorem Tracks.sendLoop (fuel : ℕ) (htracks : resampler.Tracks items)
    (hrunning : resampler.Running) (hexact : resampler.exactDeltatUsec = true) (hpos : 0 < tt)
    (hle : resampler.outputTT ≤ tt) :
    Sent resampler (sendLoop tt fuel resampler).1 items tt (sendLoop tt fuel resampler).2 := by
  induction fuel generalizing resampler with
  | zero => exact ⟨htracks, hle, by simp [NearestResamplerAtRate.sendLoop]⟩
  | succ fuel ih =>
      by_cases htt : tt > resampler.nextOutputTT
      · have hprogress := (progress_pass hrunning htt).1
        have hsame := hprogress.config
        have hrest := ih (htracks.pass hrunning hexact hpos htt) hprogress.running
          (hsame.exactDeltatUsec.trans hexact) (pass_outputTT hrunning hexact hpos htt).2
        rw [NearestResamplerAtRate.sendLoop, if_pos htt]
        refine ⟨hrest.tracks, hrest.le, ?_⟩
        intro out hout
        rcases List.mem_append.mp hout with hnow | hlater
        · have hsent : out = resampler.output := by
            unfold NearestResamplerAtRate.pass at hnow
            split at hnow
            · exact List.mem_singleton.mp hnow
            · cases hnow
          rw [hsent]
          refine ⟨htracks.rightOutput hrunning, ?_⟩
          rw [hrunning.next] at htt
          exact htt
        · obtain ⟨hright, hfar⟩ := hrest.right out hlater
          rw [hsame.rightOutput_iff] at hright
          rw [hsame.deltatUsec] at hfar
          exact ⟨hright, hfar⟩
      · rw [NearestResamplerAtRate.sendLoop, if_neg htt]
        exact ⟨htracks, hle, by simp⟩

/-- A value is added to those of its variable. -/
def addItem (tt : ℤ) (items : ℕ → List (ℤ × Option ℚ)) (value : ℕ × Option ℚ) :
    ℕ → List (ℤ × Option ℚ) :=
  match value.2 with
  | none => items
  | some x => Function.update items value.1 (items value.1 ++ [(tt, some x)])

theorem foldl_addItem (tt : ℤ) (items : ℕ → List (ℤ × Option ℚ)) (values : List (ℕ × Option ℚ))
    (k : ℕ) :
    values.foldl (addItem tt) items k = items k ++ values.filterMap fun value =>
      if value.1 = k then value.2.map fun x => (tt, some x) else none := by
  induction values generalizing items with
  | nil => exact (List.append_nil _).symm
  | cons value values ih =>
      obtain ⟨index, val⟩ := value
      rw [List.foldl_cons, ih, List.filterMap_cons]
      cases val with
      | none => simp [addItem]
      | some x =>
          by_cases hk : index = k
          · subst hk
            simp [addItem]
          · simp [addItem, hk, Function.update_of_ne (Ne.symm hk)]

theorem Tracks.takeValue (htracks : resampler.Tracks items) (hpos : 0 < tt)
    (hle : resampler.outputTT ≤ tt) (hnext : tt ≤ resampler.nextOutputTT)
    (hlate : ∀ k, ∀ item ∈ items k, item.1 ≤ tt) {value : ℕ × Option ℚ}
    (hfirst : value.2 ≠ none → items value.1 = [] → resampler.outputTT > tt.tdiv 2) :
    (takeValue tt resampler value).Tracks (addItem tt items value) := by
  obtain ⟨index, val⟩ := value
  cases val with
  | none => exact htracks
  | some x =>
      have hprev := htracks.prevTT_le hpos hlate index
      have htake : NearestResamplerAtRate.takeValue tt resampler (index, some x) =
          { resampler with
            slots := Function.update resampler.slots index
              ((resampler.slots index).take resampler.outputTT tt (some x)) } := by
        unfold NearestResamplerAtRate.takeValue
        dsimp only
        rw [if_neg (not_lt.mpr hprev), if_neg (fun h => absurd h.2 (not_lt.mpr hle))]
      have hadd : addItem tt items (index, some x) =
          Function.update items index (items index ++ [(tt, some x)]) := rfl
      have hmem : ∀ k, ∀ item ∈ addItem tt items (index, some x) k,
          item ∈ items k ∨ item = (tt, some x) := by
        intro k item hitem
        by_cases hk : k = index
        · subst hk
          rw [hadd, Function.update_self] at hitem
          rcases List.mem_append.mp hitem with hold | hnew
          · exact Or.inl hold
          · exact Or.inr (List.mem_singleton.mp hnew)
        · rw [hadd, Function.update_of_ne hk] at hitem
          exact Or.inl hitem
      rw [htake]
      refine ⟨?_, ?_, ?_, ?_, ?_⟩
      · intro k
        dsimp only
        by_cases hk : k = index
        · subst hk
          rw [hadd, Function.update_self, Function.update_self]
          apply (htracks.follows k).take hle (hlate k)
          · have := htracks.prevTT_nonneg k
            omega
          · intro hnil
            rw [htracks.empty k hnil, add_zero]
            exact hfirst (by simp) hnil
        · rw [hadd, Function.update_of_ne hk, Function.update_of_ne hk]
          exact htracks.follows k
      · intro k hnil
        dsimp only
        by_cases hk : k = index
        · rw [hk, hadd, Function.update_self] at hnil
          exact absurd hnil (by simp)
        · rw [hadd, Function.update_of_ne hk] at hnil
          rw [Function.update_of_ne hk]
          exact htracks.empty k hnil
      · intro k item hitem
        rcases hmem k item hitem with hold | rfl
        · exact htracks.isValue k item hold
        · simp
      · intro k item hitem
        rcases hmem k item hitem with hold | rfl
        · exact htracks.pos k item hold
        · exact hpos
      · intro k item hitem
        rcases hmem k item hitem with hold | rfl
        · exact htracks.le_next k item hold
        · exact hnext

/-- All values of a sample. -/
theorem Tracks.foldl_takeValue (values : List (ℕ × Option ℚ)) (htracks : resampler.Tracks items)
    (hpos : 0 < tt) (hle : resampler.outputTT ≤ tt) (hnext : tt ≤ resampler.nextOutputTT)
    (hlate : ∀ k, ∀ item ∈ items k, item.1 ≤ tt)
    (hfirst : ∀ value ∈ values, value.2 ≠ none → items value.1 = [] →
      resampler.outputTT > tt.tdiv 2) :
    (values.foldl (NearestResamplerAtRate.takeValue tt) resampler).Tracks
      (values.foldl (addItem tt) items) := by
  induction values generalizing resampler items with
  | nil => exact htracks
  | cons value values ih =>
      obtain ⟨hvalue, hvalues⟩ := List.forall_mem_cons.mp hfirst
      have htaken := htracks.takeValue hpos hle hnext hlate hvalue
      obtain ⟨slots, hslots⟩ := takeValue_frame resampler tt value
      have hitems : ∀ k, addItem tt items value k = items k ++ [value].filterMap fun value =>
          if value.1 = k then value.2.map fun x => (tt, some x) else none :=
        fun k => foldl_addItem tt items [value] k
      rw [hslots] at htaken
      rw [List.foldl_cons, List.foldl_cons, hslots]
      apply ih htaken hle hnext
      · intro k item hitem
        rw [hitems] at hitem
        rcases List.mem_append.mp hitem with hold | hnew
        · exact hlate k item hold
        · obtain ⟨other, -, heq⟩ := List.mem_filterMap.mp hnew
          split at heq
          · obtain ⟨x, -, rfl⟩ := Option.map_eq_some_iff.mp heq
            exact le_refl _
          · cases heq
      · intro other hother hdata hnil
        rw [hitems, List.append_eq_nil_iff] at hnil
        exact hvalues other hother hdata hnil.1

end Sample

/-! ## Runs -/

section Run

variable {start resampler : NearestResamplerAtRate} {before : List ValueSample} {tt : ℤ}

theorem heard_concat (start : NearestResamplerAtRate) (before : List ValueSample)
    (samp : ValueSample) (k : ℕ) :
    start.heard (before ++ [samp]) k = start.heard before k ++ start.newItems k samp := by
  unfold heard
  rw [List.flatMap_append, List.flatMap_singleton]

/-- The time of a value is that of its sample. -/
theorem exists_sample_of_mem_heard {k : ℕ} {item : ℤ × Option ℚ}
    (hmem : item ∈ start.heard before k) : ∃ samp ∈ before, samp.timeTag = item.1 := by
  obtain ⟨samp, hsamp, hitem⟩ := List.mem_flatMap.mp hmem
  obtain ⟨value, -, heq⟩ := List.mem_filterMap.mp hitem
  refine ⟨samp, hsamp, ?_⟩
  split at heq
  · obtain ⟨x, -, rfl⟩ := Option.map_eq_some_iff.mp heq
    rfl
  · cases heq

/-- The resampler between two samples. -/
structure Sound (start : NearestResamplerAtRate) (before : List ValueSample)
    (resampler : NearestResamplerAtRate) : Prop where
  config : SameConfig start resampler
  tracks : resampler.Tracks (start.heard before)
  state : Waits start resampler ∧ (∀ k, start.heard before k = []) ∨
    resampler.Running ∧ ∃ samp ∈ before,
      resampler.outputTT ≤ samp.timeTag ∧ samp.timeTag ≤ resampler.nextOutputTT

/-- A resampler that is started for a sample. -/
theorem Sound.started (hsound : Sound start before resampler) (hperiod : 0 < start.deltatUsec)
    (hexact : start.exactDeltatUsec = true) (hpos : 0 < tt)
    (hreached : resampler.Running → resampler.outputTT ≤ tt) :
    (resampler.start tt).Running ∧ (resampler.start tt).Tracks (start.heard before) ∧
      (resampler.start tt).outputTT ≤ tt := by
  rcases hsound.state with ⟨hwaits, hnone⟩ | ⟨hrunning, -⟩
  · have hperiod' : 0 < resampler.deltatUsec := by
      rw [hsound.config.deltatUsec]
      exact hperiod
    have hstart : resampler.start tt =
        { resampler.moveTo (resampler.gridTime tt) with started := true } := by
      unfold NearestResamplerAtRate.start
      rw [hwaits.started]
      rfl
    refine ⟨running_start tt hperiod' hwaits.started, ?_, ?_⟩
    · rw [hstart]
      refine ⟨?_, hsound.tracks.empty, hsound.tracks.isValue, hsound.tracks.pos, ?_⟩
      · intro k
        have hfollows := hsound.tracks.follows k
        rw [hnone k] at hfollows ⊢
        exact hfollows.of_nil _
      · intro k item hitem
        rw [hnone k] at hitem
        cases hitem
    · rw [hstart]
      exact gridTime_le hperiod' (hsound.config.exactDeltatUsec.trans hexact) hpos
  · rw [start_of_running hrunning]
    exact ⟨hrunning, hsound.tracks, hreached hrunning⟩

/-- A call of `sendSample` -/
theorem Sound.sendSample (hsound : Sound start before resampler)
    (hperiod : 0 < start.deltatUsec) (hexact : start.exactDeltatUsec = true) (hpos : 0 < tt)
    (hreached : resampler.Running → resampler.outputTT ≤ tt) :
    SameConfig start (resampler.sendSample tt).1 ∧ (resampler.sendSample tt).1.Running ∧
      tt ≤ (resampler.sendSample tt).1.nextOutputTT ∧
      Sent start (resampler.sendSample tt).1 (start.heard before) tt
        (resampler.sendSample tt).2 := by
  obtain ⟨hrunning, htracks, hle⟩ := hsound.started hperiod hexact hpos hreached
  obtain ⟨hprogress, hend⟩ := progress_sendSample hrunning
  have hsame : SameConfig start (resampler.start tt) := hsound.config.trans start_config
  have hsent := htracks.sendLoop (tt - (resampler.start tt).nextOutputTT).toNat hrunning
    (hsame.exactDeltatUsec.trans hexact) hpos hle
  refine ⟨hsame.trans hprogress.config, hprogress.running, hend, hsent.tracks, hsent.le, ?_⟩
  intro out hout
  obtain ⟨hright, hfar⟩ := hsent.right out hout
  rw [hsame.rightOutput_iff] at hright
  rw [hsame.deltatUsec] at hfar
  exact ⟨hright, hfar⟩

/-- The resampler before the values of a sample are taken. -/
theorem Sound.ready (hsound : Sound start before resampler) (hperiod : 0 < start.deltatUsec)
    (hexact : start.exactDeltatUsec = true) (hpos : 0 < tt)
    (hlate : ∀ other ∈ before, other.timeTag ≤ tt) :
    SameConfig start (resampler.ready tt).1 ∧ (resampler.ready tt).1.Running ∧
      tt ≤ (resampler.ready tt).1.nextOutputTT ∧
      Sent start (resampler.ready tt).1 (start.heard before) tt (resampler.ready tt).2 := by
  have hreached : resampler.Running → resampler.outputTT ≤ tt := by
    intro hrunning
    rcases hsound.state with ⟨hwaits, -⟩ | ⟨-, samp, hsamp, hle, -⟩
    · have hstarted := hrunning.started
      rw [hwaits.started] at hstarted
      cases hstarted
    · exact hle.trans (hlate samp hsamp)
  unfold NearestResamplerAtRate.ready
  split
  · exact hsound.sendSample hperiod hexact hpos hreached
  · next hbefore =>
      rcases hsound.state with ⟨hwaits, -⟩ | ⟨hrunning, -⟩
      · have := hwaits.nextOutputTT
        omega
      · exact ⟨hsound.config, hrunning, not_lt.mp hbefore, hsound.tracks, hreached hrunning,
          by simp⟩

/-- **One sample.** -/
theorem Sound.receive {samp : ValueSample} (hsound : Sound start before resampler)
    (hperiod : 0 < start.deltatUsec) (hexact : start.exactDeltatUsec = true)
    (hpos : 0 < samp.timeTag) (hlate : ∀ other ∈ before, other.timeTag ≤ samp.timeTag)
    (hfirst : ∀ value ∈ (start.values? samp).getD [], value.2 ≠ none →
      start.heard before value.1 = [] →
        (resampler.ready samp.timeTag).1.outputTT > samp.timeTag.tdiv 2) :
    Sound start (before ++ [samp]) (resampler.receive samp).1 ∧
      ∀ out ∈ (resampler.receive samp).2, start.RightOutput (start.heard before) out ∧
        out.timeTag + start.deltatUsec < samp.timeTag := by
  have hvalues : resampler.values? samp = start.values? samp := by
    unfold values?
    rw [hsound.config.inputs]
  cases hused : start.values? samp with
  | none =>
      have hsame : resampler.receive samp = (resampler, []) := by
        unfold NearestResamplerAtRate.receive
        rw [hvalues, hused]
      have hheard : start.heard (before ++ [samp]) = start.heard before := by
        funext k
        rw [heard_concat, newItems, hused]
        exact List.append_nil _
      rw [hsame]
      refine ⟨⟨hsound.config, ?_, ?_⟩, by simp⟩
      · rw [hheard]
        exact hsound.tracks
      · rw [hheard]
        rcases hsound.state with hwaits | ⟨hrunning, other, hother, htimes⟩
        · exact Or.inl hwaits
        · exact Or.inr ⟨hrunning, other, List.mem_append_left _ hother, htimes⟩
  | some values =>
      have hreceive : resampler.receive samp =
          (values.foldl (NearestResamplerAtRate.takeValue samp.timeTag)
            (resampler.ready samp.timeTag).1, (resampler.ready samp.timeTag).2) := by
        unfold NearestResamplerAtRate.receive
        rw [hvalues, hused]
      have hheard : start.heard (before ++ [samp]) =
          values.foldl (addItem samp.timeTag) (start.heard before) := by
        funext k
        rw [heard_concat, newItems, hused, foldl_addItem]
        rfl
      rw [hused] at hfirst
      obtain ⟨hconfig, hrunning, hend, hsent⟩ := hsound.ready hperiod hexact hpos hlate
      have hearlier : ∀ k, ∀ item ∈ start.heard before k, item.1 ≤ samp.timeTag := by
        intro k item hitem
        obtain ⟨other, hother, htime⟩ := exists_sample_of_mem_heard hitem
        rw [← htime]
        exact hlate other hother
      have htracks := hsent.tracks.foldl_takeValue values hpos hsent.le hend hearlier hfirst
      obtain ⟨slots, hslots⟩ :=
        foldl_takeValue_frame (resampler.ready samp.timeTag).1 samp.timeTag values
      rw [hreceive]
      refine ⟨⟨?_, ?_, ?_⟩, hsent.right⟩
      · rw [hslots]
        exact hconfig.trans ⟨rfl, rfl, rfl, rfl, rfl, rfl⟩
      · rw [hheard]
        exact htracks
      · rw [hslots]
        exact Or.inr ⟨hrunning.withSlots slots, samp, List.mem_append_right _ List.mem_cons_self,
          hsent.le, hend⟩

theorem Fresh.sound (hfresh : start.Fresh) : Sound start [] start := by
  refine ⟨SameConfig.refl start, ⟨?_, ?_, ?_, ?_, ?_⟩, Or.inl ⟨⟨SameConfig.refl start,
    hfresh.started, hfresh.nextOutputTT⟩, fun _ => rfl⟩⟩
  · intro k
    rw [hfresh.slots]
    exact ⟨fun _ => Or.inl ⟨rfl, rfl⟩, fun h => absurd rfl h⟩
  · intro k _
    rw [hfresh.slots]
  · intro k item hitem
    cases hitem
  · intro k item hitem
    cases hitem
  · intro k item hitem
    cases hitem

variable {samples : List ValueSample}

/-- The samples before a sample of a run in order are not later. -/
theorem forall_le_before
    (hordered : samples.Pairwise fun first second => first.timeTag ≤ second.timeTag)
    {samp : ValueSample} (hbefore : before ++ [samp] <+: samples) :
    ∀ other ∈ before, other.timeTag ≤ samp.timeTag := by
  intro other hother
  have hpart := hordered.sublist hbefore.sublist
  rw [List.pairwise_append] at hpart
  exact hpart.2.2 other hother samp List.mem_cons_self

theorem sound_run (hfresh : start.Fresh) (hexact : start.exactDeltatUsec = true)
    (hordered : samples.Pairwise fun first second => first.timeTag ≤ second.timeTag)
    (hfirst : AtEvery (FirstNear start) samples) (hbefore : before <+: samples) :
    Sound start before (afterCalls NearestResamplerAtRate.receive start before) := by
  have hboth : AtEvery (fun before samp => FirstNear start before samp ∧
      ∀ other ∈ before, other.timeTag ≤ samp.timeTag) samples :=
    fun before samp h => ⟨hfirst before samp h, forall_le_before hordered h⟩
  refine hboth.invariant (fun before =>
    Sound start before (afterCalls NearestResamplerAtRate.receive start before)) hfresh.sound ?_
    hbefore
  rintro before samp hsound ⟨hnear, hlate⟩
  rw [afterCalls_concat]
  exact (hsound.receive hfresh.period_pos hexact hnear.1 hlate hnear.2).1

/-- The values of later samples are too far away. -/
theorem RightOutput.later {before rest : List ValueSample} {samp : ValueSample}
    {out : ResampledOutput} (hperiod : 0 < start.deltatUsec)
    (hright : start.RightOutput (start.heard before) out)
    (hfar : out.timeTag + start.deltatUsec < samp.timeTag)
    (hordered : ∀ other ∈ samp :: rest, samp.timeTag ≤ other.timeTag) :
    start.RightOutput (start.heard (before ++ samp :: rest)) out := by
  intro k hk
  obtain ⟨val, hval, hvalue⟩ := hright k hk
  refine ⟨val, hval, ?_⟩
  have hheard : start.heard (before ++ samp :: rest) k =
      start.heard before k ++ start.heard (samp :: rest) k := List.flatMap_append
  rw [hheard]
  apply hvalue.append
  intro item hitem
  obtain ⟨other, hother, htime⟩ := exists_sample_of_mem_heard hitem
  have hlate := hordered other hother
  have htenth : 0 ≤ start.deltatUsecD10 := Int.tdiv_nonneg hperiod.le (by norm_num)
  rw [abs_of_nonneg (by omega)]
  omega

/-- The outputs at the samples. -/
theorem rightOutput_of_mem_answers (hfresh : start.Fresh) (hexact : start.exactDeltatUsec = true)
    (hordered : samples.Pairwise fun first second => first.timeTag ≤ second.timeTag)
    (hfirst : AtEvery (FirstNear start) samples) {out : ResampledOutput}
    (hout : out ∈ (answers NearestResamplerAtRate.receive start samples).flatten) :
    start.RightOutput (start.heard samples) out := by
  obtain ⟨outs, houts, hmem⟩ := List.mem_flatten.mp hout
  obtain ⟨before, samp, rest, rfl, rfl⟩ := exists_of_mem_answers houts
  have hbefore : before ++ [samp] <+: before ++ samp :: rest := ⟨rest, by simp⟩
  have hsound := sound_run hfresh hexact hordered hfirst
    ((List.prefix_append before [samp]).trans hbefore)
  obtain ⟨hpos, hnear⟩ := hfirst before samp hbefore
  obtain ⟨hright, hfar⟩ := (hsound.receive hfresh.period_pos hexact hpos
    (forall_le_before hordered hbefore) hnear).2 out hmem
  apply hright.later hfresh.period_pos hfar
  rw [List.pairwise_append, List.pairwise_cons] at hordered
  exact List.forall_mem_cons.mpr ⟨le_refl _, hordered.2.1.1⟩

/-- The output at the flush. -/
theorem rightOutput_of_mem_flush (hfresh : start.Fresh) (hexact : start.exactDeltatUsec = true)
    (hordered : samples.Pairwise fun first second => first.timeTag ≤ second.timeTag)
    (hfirst : AtEvery (FirstNear start) samples) {out : ResampledOutput}
    (hout : out ∈ (afterCalls NearestResamplerAtRate.receive start samples).flush.2) :
    start.RightOutput (start.heard samples) out := by
  have hsound := sound_run hfresh hexact hordered hfirst (List.prefix_refl samples)
  have hpos : 0 < (afterCalls NearestResamplerAtRate.receive start samples).nextOutputTT + 1 := by
    rcases hsound.state with ⟨hwaits, -⟩ | ⟨-, samp, hsamp, -, hle⟩
    · rw [hwaits.nextOutputTT]
      exact one_pos
    · obtain ⟨before, rest, rfl⟩ := List.append_of_mem hsamp
      have hpositive := (hfirst before samp ⟨rest, by simp⟩).1
      omega
  have hsent := hsound.sendSample hfresh.period_pos hexact hpos (by
    intro hrunning
    have := hrunning.next
    have := hrunning.period_pos
    omega)
  exact (hsent.2.2.2.right out hout).1

end Run

/-- **The loops end and the time tags increase; if the period is a number of microseconds, they are
on the grid, and with samples in order the values are right if the first value of each variable is
nearer to the output time than time zero.** -/
theorem outputs_at_rate (start : NearestResamplerAtRate) (samples : List ValueSample)
    (hfresh : start.Fresh) :
    (∀ before, before <+: samples → ∀ tt,
        tt ≤ ((afterCalls receive start before).sendSample tt).1.nextOutputTT) ∧
      ((start.outputs samples).map ResampledOutput.timeTag).Pairwise (· < ·) ∧
      (start.exactDeltatUsec = true →
        (∀ out ∈ start.outputs samples, start.OnGrid out.timeTag) ∧
        ((samples.Pairwise fun first second => first.timeTag ≤ second.timeTag) →
          AtEvery (FirstNear start) samples →
            ∀ out ∈ start.outputs samples, start.RightOutput (start.heard samples) out)) := by
  have hran : Ran start _ (start.outputs samples) :=
    ((ranOrWaits_run hfresh samples).sendSample hfresh.period_pos _).1
  refine ⟨?_, hran.sorted, ?_⟩
  · intro before _ tt
    exact ((ranOrWaits_run hfresh before).sendSample hfresh.period_pos tt).2
  · intro hexact
    refine ⟨hran.onGrid hexact, ?_⟩
    intro hordered hfirst out hout
    rcases List.mem_append.mp hout with hanswer | hflush
    · exact rightOutput_of_mem_answers hfresh hexact hordered hfirst hanswer
    · exact rightOutput_of_mem_flush hfresh hexact hordered hfirst hflush

/-- Ten samples a second, with time tags at the start of the periods. -/
def tenPerSecond : NearestResamplerAtRate where
  deltatUsec := 100000
  exactDeltatUsec := true
  middleTimeTags := false
  fillGaps := true
  ndataValues := 1
  inputs id := if id = 1 then some [⟨0, 0, 1⟩] else none

theorem fresh_tenPerSecond : tenPerSecond.Fresh := ⟨by decide, rfl, rfl, rfl, rfl⟩

/-- Samples a second after time zero, with one period between them that has none. -/
theorem outputs_tenPerSecond :
    tenPerSecond.outputs [⟨1030000, 1, .float, [some 1]⟩, ⟨1240000, 1, .float, [some 2]⟩] =
        [⟨1000000, [some 1, some 1]⟩, ⟨1100000, [some 1, some 1]⟩, ⟨1200000, [some 2, some 1]⟩] ∧
      ∀ out ∈ tenPerSecond.outputs
        [⟨1030000, 1, .float, [some 1]⟩, ⟨1240000, 1, .float, [some 2]⟩],
        tenPerSecond.RightOutput (tenPerSecond.heard
          [⟨1030000, 1, .float, [some 1]⟩, ⟨1240000, 1, .float, [some 2]⟩]) out := by
  constructor
  · decide +kernel
  · exact ((outputs_at_rate tenPerSecond
      [⟨1030000, 1, .float, [some 1]⟩, ⟨1240000, 1, .float, [some 2]⟩] fresh_tenPerSecond).2.2
      rfl).2 (by decide) (by decide +kernel)

/-- A value within the first period after time zero is lost. -/
theorem outputs_tenPerSecond_at_zero :
    tenPerSecond.outputs [⟨50000, 1, .float, [some 1]⟩] = [⟨0, [none, some 0]⟩] ∧
      ¬ tenPerSecond.RightOutput (tenPerSecond.heard [⟨50000, 1, .float, [some 1]⟩])
        ⟨0, [none, some 0]⟩ := by
  constructor
  · decide +kernel
  · intro hright
    obtain ⟨val, hval, hvalue⟩ := hright 0 (by decide)
    have hnone : val = none := by simpa using hval.symm
    rw [hnone] at hvalue
    have hfar := hvalue (50000, some 1) (by decide +kernel)
    exact absurd hfar (by decide +kernel)

end NearestResamplerAtRate

end Nidas.Core
