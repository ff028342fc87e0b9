import Mathlib.Data.List.Flatten
import Mathlib.Data.List.Nodup
import Nidas.Core.SampleAverager

/-!
# The samples of an average

Every output of a `SampleAverager` should be the average of the values of a period, and every
value should be in one of them.

## Strategy

A run of the averager is a list of buckets, one for each output, with the samples that went into it
(`Grouping`).  The keys of the buckets are increasing multiples of the period.  A bucket has the
samples of its period, with one exception: when a sample is exactly one period behind the end of
the last one, the end is only moved up to the sample and not beyond it, and the sample gets a bucket
to itself that is one period too early.  The outputs are right exactly if no sample with a value
is in such a bucket.
-/

namespace Nidas.Core

open Lib Util

namespace SampleAverager

/-! ## Buckets -/

/-- A sample is used if its type and its id are known. -/
def uses (avg : SampleAverager) (samp : ValueSample) : Bool := (avg.usedVariables samp).isSome

/-- The end of the period of a sample. -/
def periodOf (avg : SampleAverager) (samp : ValueSample) : ℤ :=
  periodEnd avg.averagePeriodUsecs samp.timeTag

/-- A sample with a value is exactly one period behind the end of the last period. -/
def OneBehind (avg : SampleAverager) (samp : ValueSample) : Prop :=
  0 < avg.endTime ∧ samp.timeTag = avg.endTime + avg.averagePeriodUsecs ∧ avg.values samp ≠ []

instance (avg : SampleAverager) (samp : ValueSample) : Decidable (avg.OneBehind samp) :=
  inferInstanceAs (Decidable (_ ∧ _))

/-- Where the samples of a bucket are: in its period, or there is just one, at the end of it. -/
def Placed (avg : SampleAverager) (bucket : ℤ × List ValueSample) : Prop :=
  avg.averagePeriodUsecs ∣ bucket.1 ∧
    ((∀ samp ∈ bucket.2, avg.periodOf samp = bucket.1) ∨
      ∃ samp, bucket.2 = [samp] ∧ samp.timeTag = bucket.1)

/-- A run as a list of buckets, of which the last is still open. -/
structure Grouping (avg : SampleAverager) (samples : List ValueSample)
    (buckets : List (ℤ × List ValueSample)) (members : List ValueSample) : Prop where
  config : SameConfig avg (afterCalls receive avg samples)
  used : contents buckets ++ members = samples.filter avg.uses
  outs : (answers receive avg samples).flatten =
    buckets.map fun bucket => avg.countedOutputOf bucket.1 (bucket.2.flatMap avg.values)
  state : ((afterCalls receive avg samples).endTime = 0 ∧ buckets = [] ∧ members = []) ∨
    (0 < (afterCalls receive avg samples).endTime ∧ members ≠ [] ∧
      (afterCalls receive avg samples).SumsOf (members.flatMap avg.values))
  keys : ((buckets ++ [((afterCalls receive avg samples).endTime, members)]).map
    Prod.fst).Pairwise (· < ·)
  placed : ∀ bucket ∈ buckets ++ [((afterCalls receive avg samples).endTime, members)],
    avg.Placed bucket
  proper : AtEvery (fun before samp => ¬ (afterCalls receive avg before).OneBehind samp) samples ↔
    ∀ bucket ∈ buckets ++ [((afterCalls receive avg samples).endTime, members)],
      Proper avg.periodOf avg.values bucket

section Step

variable {avg : SampleAverager} {samples : List ValueSample}
  {buckets : List (ℤ × List ValueSample)} {members : List ValueSample} {samp : ValueSample}

theorem values_eq_nil_of_not_uses (hused : avg.uses samp = false) : avg.values samp = [] := by
  unfold uses at hused
  unfold SampleAverager.values
  rw [Option.isSome_eq_false_iff, Option.isNone_iff_eq_none] at hused
  rw [hused]

theorem receive_of_not_uses (hused : avg.uses samp = false) : avg.receive samp = (avg, []) := by
  unfold uses at hused
  unfold SampleAverager.receive
  rw [Option.isSome_eq_false_iff, Option.isNone_iff_eq_none] at hused
  rw [hused]

theorem receive_of_uses (hused : avg.uses samp = true) :
    avg.receive samp =
      ((avg.values samp).foldl addValue (avg.advance samp.timeTag).1,
        (avg.advance samp.timeTag).2) := by
  unfold uses at hused
  obtain ⟨vars, hvars⟩ := Option.isSome_iff_exists.mp hused
  unfold SampleAverager.receive
  rw [hvars]

theorem Grouping.initial (hend : avg.endTime = 0) : Grouping avg [] [] [] := by
  refine ⟨SameConfig.refl avg, rfl, rfl, Or.inl ⟨hend, rfl, rfl⟩, by simp, ?_, ?_⟩
  · intro bucket hmem
    rw [List.nil_append, List.mem_singleton] at hmem
    subst hmem
    refine ⟨?_, Or.inl (by simp)⟩
    change avg.averagePeriodUsecs ∣ avg.endTime
    rw [hend]
    exact dvd_zero _
  · refine iff_of_true ?_ ?_
    · intro before samp hbefore
      simp at hbefore
    · intro bucket hmem
      rw [List.nil_append, List.mem_singleton] at hmem
      subst hmem
      simp [Proper]

theorem SameConfig.uses {avg other : SampleAverager} (hsame : SameConfig avg other)
    (samp : ValueSample) : other.uses samp = avg.uses samp := by
  unfold SampleAverager.uses
  rw [hsame.usedVariables]

/-- A sample that is not used changes nothing. -/
theorem Grouping.unused (hgroup : Grouping avg samples buckets members)
    (hused : avg.uses samp = false) : Grouping avg (samples ++ [samp]) buckets members := by
  have hreceive : (afterCalls receive avg samples).receive samp =
      (afterCalls receive avg samples, []) := by
    apply receive_of_not_uses
    rw [hgroup.config.uses, hused]
  have hlast : afterCalls receive avg (samples ++ [samp]) = afterCalls receive avg samples := by
    rw [afterCalls_concat, hreceive]
  have hbehind : ¬ (afterCalls receive avg samples).OneBehind samp := by
    rintro ⟨-, -, hne⟩
    rw [hgroup.config.values, values_eq_nil_of_not_uses hused] at hne
    exact hne rfl
  constructor
  · rw [hlast]
    exact hgroup.config
  · rw [List.filter_append, hgroup.used]
    simp [hused]
  · rw [flatten_answers_concat, hreceive, List.append_nil]
    exact hgroup.outs
  · rw [hlast]
    exact hgroup.state
  · rw [hlast]
    exact hgroup.keys
  · rw [hlast]
    exact hgroup.placed
  · rw [hlast, atEvery_concat, hgroup.proper]
    exact and_iff_left hbehind

/-- A sample before the end of the open period goes into its bucket. -/
theorem Grouping.before (hperiod : 0 < avg.averagePeriodUsecs)
    (hgroup : Grouping avg samples buckets members) (hused : avg.uses samp = true)
    (hpos : 0 < samp.timeTag) (hlater : ∀ other ∈ samples, other.timeTag ≤ samp.timeTag)
    (hbefore : samp.timeTag < (afterCalls receive avg samples).endTime) :
    Grouping avg (samples ++ [samp]) buckets (members ++ [samp]) := by
  have hreceive : (afterCalls receive avg samples).receive samp =
      ((avg.values samp).foldl addValue (afterCalls receive avg samples), []) := by
    rw [receive_of_uses (by rw [hgroup.config.uses, hused]), hgroup.config.values, advance,
      if_neg (by omega)]
  have hlast : afterCalls receive avg (samples ++ [samp]) =
      (avg.values samp).foldl addValue (afterCalls receive avg samples) := by
    rw [afterCalls_concat, hreceive]
  obtain ⟨hconfig, hend⟩ := foldl_addValue_config (afterCalls receive avg samples)
    (avg.values samp)
  obtain ⟨hzero, -⟩ | ⟨hrunning, hne, hsums⟩ := hgroup.state
  · omega
  -- the members are in the period, since a single one at its end is not before this sample
  obtain ⟨hdvd, hmembers⟩ := hgroup.placed _ (List.mem_append_right _ List.mem_cons_self)
  have hsamples : ∀ other ∈ members, other ∈ samples := by
    intro other hother
    have hmem : other ∈ contents buckets ++ members := List.mem_append_right _ hother
    rw [hgroup.used] at hmem
    exact List.mem_of_mem_filter hmem
  have hright : ∀ other ∈ members,
      avg.periodOf other = (afterCalls receive avg samples).endTime := by
    rcases hmembers with hright | ⟨other, rfl, htime⟩
    · exact hright
    · have := hlater other (hsamples other List.mem_cons_self)
      dsimp only at htime
      omega
  have hown : avg.periodOf samp = (afterCalls receive avg samples).endTime := by
    obtain ⟨other, rest, rfl⟩ := List.exists_cons_of_ne_nil hne
    have hother := hright other List.mem_cons_self
    have hle := hlater other (hsamples other List.mem_cons_self)
    have hstart := ((eq_periodEnd_iff hperiod hdvd _).mp hother.symm).1
    exact ((eq_periodEnd_iff hperiod hdvd _).mpr ⟨hstart.trans hle, hbefore⟩).symm
  have hbehind : ¬ (afterCalls receive avg samples).OneBehind samp := by
    rintro ⟨-, htime, -⟩
    rw [hgroup.config.period] at htime
    omega
  constructor
  · rw [hlast]
    exact hgroup.config.trans hconfig
  · rw [List.filter_append, ← hgroup.used, List.append_assoc]
    simp [hused]
  · rw [flatten_answers_concat, hreceive, List.append_nil]
    exact hgroup.outs
  · rw [hlast, hend]
    refine Or.inr ⟨hrunning, by simp, ?_⟩
    rw [List.flatMap_append, List.flatMap_singleton]
    exact hsums.foldl_addValue _
  · rw [hlast, hend]
    have hkeys := hgroup.keys
    rw [List.map_append] at hkeys ⊢
    exact hkeys
  · rw [hlast, hend]
    intro bucket hmem
    rcases List.mem_append.mp hmem with hmem | hmem
    · exact hgroup.placed bucket (List.mem_append_left _ hmem)
    · rw [List.mem_singleton] at hmem
      subst hmem
      refine ⟨hdvd, Or.inl ?_⟩
      intro other hother
      rcases List.mem_append.mp hother with hother | hother
      · exact hright other hother
      · rw [List.mem_singleton] at hother
        rw [hother]
        exact hown
  · rw [hlast, hend, atEvery_concat, hgroup.proper, and_iff_left hbehind,
      List.forall_mem_append, List.forall_mem_append]
    apply and_congr_right
    intro _
    rw [List.forall_mem_singleton, List.forall_mem_singleton]
    -- both buckets are proper, since all of their members have the key
    refine iff_of_true (fun other hother _ => hright other hother) ?_
    intro other hother _
    rcases List.mem_append.mp hother with hother | hother
    · exact hright other hother
    · rw [List.mem_singleton] at hother
      rw [hother]
      exact hown

/-- A sample opens a new bucket, behind closed ones. -/
theorem Grouping.opened {closed : List (ℤ × List ValueSample)} {endTime : ℤ}
    {out : List AverageOutput} (hconfig : SameConfig avg (afterCalls receive avg samples))
    (hused : avg.uses samp = true)
    (hadvance : (afterCalls receive avg samples).advance samp.timeTag =
      ({ (afterCalls receive avg samples).zeroed with endTime := endTime }, out))
    (hcontents : contents closed = samples.filter avg.uses)
    (houts : (answers receive avg samples).flatten ++ out =
      closed.map fun bucket => avg.countedOutputOf bucket.1 (bucket.2.flatMap avg.values))
    (hpos : 0 < endTime) (hkeys : (closed.map Prod.fst).Pairwise (· < ·))
    (hlast : ∀ bucket ∈ closed, bucket.1 < endTime)
    (hplaced : ∀ bucket ∈ closed, avg.Placed bucket) (hplace : avg.Placed (endTime, [samp]))
    (hproper :
      AtEvery (fun before samp => ¬ (afterCalls receive avg before).OneBehind samp) samples ↔
        ∀ bucket ∈ closed, Proper avg.periodOf avg.values bucket)
    (hown : ¬ (afterCalls receive avg samples).OneBehind samp ↔
      Proper avg.periodOf avg.values (endTime, [samp])) :
    Grouping avg (samples ++ [samp]) closed [samp] := by
  have hreceive : (afterCalls receive avg samples).receive samp =
      ((avg.values samp).foldl addValue
        { (afterCalls receive avg samples).zeroed with endTime := endTime }, out) := by
    rw [receive_of_uses (by rw [hconfig.uses, hused]), hconfig.values, hadvance]
  have hafter : afterCalls receive avg (samples ++ [samp]) =
      (avg.values samp).foldl addValue
        { (afterCalls receive avg samples).zeroed with endTime := endTime } := by
    rw [afterCalls_concat, hreceive]
  obtain ⟨hsame, hend⟩ := foldl_addValue_config
    { (afterCalls receive avg samples).zeroed with endTime := endTime } (avg.values samp)
  have hzeroed : SameConfig avg
      { (afterCalls receive avg samples).zeroed with endTime := endTime } :=
    ⟨hconfig.period, hconfig.ndataValues, hconfig.inputs⟩
  have hsums : ({ (afterCalls receive avg samples).zeroed with
      endTime := endTime } : SampleAverager).SumsOf [] :=
    ⟨(SumsOf.zeroed (afterCalls receive avg samples)).sums,
      (SumsOf.zeroed (afterCalls receive avg samples)).cnts⟩
  rw [← hafter] at hsame hend
  constructor
  · exact hzeroed.trans hsame
  · rw [List.filter_append, hcontents]
    simp [hused]
  · rw [flatten_answers_concat, hreceive, houts]
  · rw [hend]
    refine Or.inr ⟨hpos, by simp, ?_⟩
    rw [List.flatMap_singleton, hafter]
    exact hsums.foldl_addValue _
  · rw [hend, List.map_append, List.pairwise_append]
    refine ⟨hkeys, by simp, ?_⟩
    intro key hkey other hother
    obtain ⟨bucket, hbucket, rfl⟩ := List.mem_map.mp hkey
    rw [List.map_singleton, List.mem_singleton] at hother
    rw [hother]
    exact hlast bucket hbucket
  · rw [hend, List.forall_mem_append, List.forall_mem_singleton]
    exact ⟨hplaced, hplace⟩
  · rw [hend, atEvery_concat, hproper, hown, List.forall_mem_append, List.forall_mem_singleton]

/-- A bucket with one sample, that is in the period, is placed and proper. -/
theorem placed_of_periodOf (avg : SampleAverager) (samp : ValueSample) {endTime : ℤ}
    (hown : avg.periodOf samp = endTime) :
    avg.Placed (endTime, [samp]) ∧ Proper avg.periodOf avg.values (endTime, [samp]) := by
  have hall : ∀ other ∈ [samp], avg.periodOf other = endTime := by simpa using hown
  refine ⟨⟨?_, Or.inl hall⟩, fun other hother _ => hall other hother⟩
  rw [← hown]
  exact dvd_periodEnd

/-- The first sample. -/
theorem Grouping.start (hperiod : 0 < avg.averagePeriodUsecs)
    (hgroup : Grouping avg samples [] []) (hused : avg.uses samp = true)
    (hpos : 0 < samp.timeTag) (hzero : (afterCalls receive avg samples).endTime = 0) :
    Grouping avg (samples ++ [samp]) [] [samp] := by
  have hceil : timeCeiling samp.timeTag avg.averagePeriodUsecs = avg.periodOf samp := by
    rw [timeCeiling_eq hpos.le]
    rfl
  obtain ⟨hplace, hproper⟩ := placed_of_periodOf avg samp rfl
  have hadvance : (afterCalls receive avg samples).advance samp.timeTag =
      ({ (afterCalls receive avg samples).zeroed with endTime := avg.periodOf samp }, []) := by
    unfold advance
    rw [if_pos (by omega), if_neg (by omega), hgroup.config.period, hceil]
  have hend : 0 < avg.periodOf samp := by
    have := lt_periodEnd hperiod samp.timeTag
    unfold periodOf
    omega
  refine Grouping.opened hgroup.config hused hadvance ?_ ?_ hend List.Pairwise.nil (by simp)
    (by simp) hplace ?_ ?_
  · exact hgroup.used
  · rw [hgroup.outs, List.append_nil]
  · rw [hgroup.proper, hzero]
    simp [Proper]
  · refine iff_of_true ?_ hproper
    rintro ⟨hrunning, -⟩
    omega

/-- A sample behind the end of the open period. -/
theorem Grouping.next (hperiod : 0 < avg.averagePeriodUsecs)
    (hgroup : Grouping avg samples buckets members) (hused : avg.uses samp = true)
    (hpos : 0 < samp.timeTag) (hrunning : 0 < (afterCalls receive avg samples).endTime)
    (hsums : (afterCalls receive avg samples).SumsOf (members.flatMap avg.values))
    (hbehind : (afterCalls receive avg samples).endTime ≤ samp.timeTag) :
    Grouping avg (samples ++ [samp])
      (buckets ++ [((afterCalls receive avg samples).endTime, members)]) [samp] := by
  have hdvd := (hgroup.placed _ (List.mem_append_right _ List.mem_cons_self)).1
  dsimp only at hdvd
  have hcontents : contents (buckets ++ [((afterCalls receive avg samples).endTime, members)]) =
      samples.filter avg.uses := by
    rw [contents_append, contents_cons, ← hgroup.used]
    simp [contents]
  have houts : (answers receive avg samples).flatten ++ [(afterCalls receive avg samples).output] =
      (buckets ++ [((afterCalls receive avg samples).endTime, members)]).map
        fun bucket => avg.countedOutputOf bucket.1 (bucket.2.flatMap avg.values) := by
    rw [List.map_append, List.map_singleton, hgroup.outs, hsums.output_eq hgroup.config]
  have hkeys := hgroup.keys
  have hlast : ∀ bucket ∈ buckets ++ [((afterCalls receive avg samples).endTime, members)],
      bucket.1 ≤ (afterCalls receive avg samples).endTime := by
    intro bucket hmem
    rcases List.mem_append.mp hmem with hmem | hmem
    · rw [List.map_append, List.pairwise_append] at hkeys
      exact (hkeys.2.2 bucket.1 (List.mem_map_of_mem hmem) _ List.mem_cons_self).le
    · rw [List.mem_singleton] at hmem
      rw [hmem]
  have hopened : ∀ endTime, (if samp.timeTag > (afterCalls receive avg samples).endTime +
        avg.averagePeriodUsecs then timeCeiling samp.timeTag avg.averagePeriodUsecs
      else (afterCalls receive avg samples).endTime + avg.averagePeriodUsecs) = endTime →
      (afterCalls receive avg samples).endTime < endTime → avg.Placed (endTime, [samp]) →
      (¬ (afterCalls receive avg samples).OneBehind samp ↔
        Proper avg.periodOf avg.values (endTime, [samp])) →
      Grouping avg (samples ++ [samp])
        (buckets ++ [((afterCalls receive avg samples).endTime, members)]) [samp] := by
    intro endTime hendTime hlt hplace hown
    refine Grouping.opened hgroup.config hused ?_ hcontents houts (hrunning.trans hlt) hkeys ?_
      hgroup.placed hplace hgroup.proper hown
    · unfold advance
      rw [if_pos hbehind, if_pos hrunning, hgroup.config.period]
      dsimp only
      rw [hendTime]
    · intro bucket hmem
      exact (hlast bucket hmem).trans_lt hlt
  have hnotBehind : samp.timeTag ≠ (afterCalls receive avg samples).endTime +
      avg.averagePeriodUsecs → ¬ (afterCalls receive avg samples).OneBehind samp := by
    rintro hne ⟨-, htime, -⟩
    rw [hgroup.config.period] at htime
    exact hne htime
  rcases lt_trichotomy samp.timeTag
    ((afterCalls receive avg samples).endTime + avg.averagePeriodUsecs) with hlt | heq | hgt
  · -- in the next period
    have hown : avg.periodOf samp =
        (afterCalls receive avg samples).endTime + avg.averagePeriodUsecs := by
      apply Eq.symm
      exact (eq_periodEnd_iff hperiod (dvd_add hdvd (dvd_refl _)) _).mpr ⟨by omega, hlt⟩
    obtain ⟨hplace, hproper⟩ := placed_of_periodOf avg samp hown
    exact hopened _ (if_neg (by omega)) (by omega) hplace
      (iff_of_true (hnotBehind hlt.ne) hproper)
  · -- at the end of the next period
    refine hopened _ (if_neg (by omega)) (by omega)
      ⟨dvd_add hdvd (dvd_refl _), Or.inr ⟨samp, rfl, heq⟩⟩ ?_
    have hother : avg.periodOf samp ≠
        (afterCalls receive avg samples).endTime + avg.averagePeriodUsecs := by
      have := lt_periodEnd hperiod samp.timeTag
      unfold periodOf
      omega
    constructor
    · intro hnot item hitem hne
      rw [List.mem_singleton] at hitem
      subst hitem
      refine absurd ⟨hrunning, ?_, ?_⟩ hnot
      · rw [hgroup.config.period]
        exact heq
      · rw [hgroup.config.values]
        exact hne
    · rintro hproper ⟨-, -, hne⟩
      rw [hgroup.config.values] at hne
      exact hother (hproper samp List.mem_cons_self hne)
  · -- behind the next period
    have hceil : timeCeiling samp.timeTag avg.averagePeriodUsecs = avg.periodOf samp := by
      rw [timeCeiling_eq hpos.le]
      rfl
    obtain ⟨hplace, hproper⟩ := placed_of_periodOf avg samp rfl
    have hlt := lt_periodEnd hperiod samp.timeTag
    refine hopened _ ((if_pos hgt).trans hceil) ?_ hplace (iff_of_true (hnotBehind hgt.ne') hproper)
    unfold periodOf
    omega

/-- **Every run is a list of buckets.** -/
theorem exists_grouping (hperiod : 0 < avg.averagePeriodUsecs) (hend : avg.endTime = 0)
    {samples : List ValueSample} (hpos : ∀ samp ∈ samples, 0 < samp.timeTag)
    (hordered : samples.Pairwise fun first second => first.timeTag ≤ second.timeTag) :
    ∃ buckets members, Grouping avg samples buckets members := by
  induction samples using List.reverseRecOn with
  | nil => exact ⟨[], [], Grouping.initial hend⟩
  | append_singleton samples samp ih =>
      rw [List.pairwise_append] at hordered
      obtain ⟨buckets, members, hgroup⟩ := ih
        (fun other hother => hpos other (List.mem_append_left _ hother)) hordered.1
      have hlater : ∀ other ∈ samples, other.timeTag ≤ samp.timeTag := fun other hother =>
        hordered.2.2 other hother samp List.mem_cons_self
      have hsampPos := hpos samp (List.mem_append_right _ List.mem_cons_self)
      cases hused : avg.uses samp with
      | false => exact ⟨buckets, members, hgroup.unused hused⟩
      | true =>
          by_cases hbefore : samp.timeTag < (afterCalls receive avg samples).endTime
          · exact ⟨_, _, hgroup.before hperiod hused hsampPos hlater hbefore⟩
          · obtain ⟨hzero, rfl, rfl⟩ | ⟨hrunning, -, hsums⟩ := hgroup.state
            · exact ⟨_, _, hgroup.start hperiod hused hsampPos hzero⟩
            · exact ⟨_, _, hgroup.next hperiod hused hsampPos hrunning hsums (by omega)⟩

end Step

/-! ## The outputs -/

section Outputs

variable {avg : SampleAverager} {samples : List ValueSample}
  {buckets : List (ℤ × List ValueSample)} {members : List ValueSample}

theorem index_lt_of_mem_values {samp : ValueSample} {value : ℕ × ℚ}
    (hmem : value ∈ avg.values samp) : value.1 < avg.ndataValues := by
  unfold SampleAverager.values at hmem
  split at hmem
  · cases hmem
  · next vars hvars =>
      obtain ⟨var, hvar, hvalue⟩ := List.mem_flatMap.mp hmem
      obtain ⟨j, hj, hjoin⟩ := List.mem_filterMap.mp hvalue
      obtain ⟨v, -, rfl⟩ := Option.map_eq_some_iff.mp hjoin
      rw [List.mem_range] at hj
      have hinputs : avg.inputs samp.id = some vars := by
        unfold usedVariables at hvars
        split at hvars
        · cases hvars
        · exact hvars
      have := avg.inBounds samp.id vars hinputs var hvar
      dsimp only
      omega

/-- A sample with a value has one that is seen in the output. -/
theorem exists_valuesAt_ne_nil {samp : ValueSample} (hne : avg.values samp ≠ []) :
    ∃ i < avg.ndataValues, valuesAt i (avg.values samp) ≠ [] := by
  obtain ⟨value, rest, hvalues⟩ := List.exists_cons_of_ne_nil hne
  refine ⟨value.1, index_lt_of_mem_values (by rw [hvalues]; exact List.mem_cons_self), ?_⟩
  rw [hvalues]
  simp [valuesAt]

/-- The values of a period are what is contributed with its end. -/
theorem periodValues_eq (hperiod : 0 < avg.averagePeriodUsecs) {endTime : ℤ}
    (hdvd : avg.averagePeriodUsecs ∣ endTime) (samples : List ValueSample) :
    avg.periodValues endTime samples = contributed avg.periodOf avg.values endTime samples := by
  unfold periodValues contributed
  congr 1
  apply List.filter_congr
  intro samp _
  have hiff := eq_periodEnd_iff hperiod hdvd samp.timeTag
  simp only [decide_eq_decide]
  rw [← hiff]
  exact eq_comm

/-- All buckets of a run. -/
theorem Grouping.contents_all (hgroup : Grouping avg samples buckets members) :
    contents (buckets ++ [((afterCalls receive avg samples).endTime, members)]) =
      samples.filter avg.uses := by
  rw [contents_append, contents_cons, ← hgroup.used]
  simp [contents]

theorem Grouping.periodValues_eq (hgroup : Grouping avg samples buckets members)
    (hperiod : 0 < avg.averagePeriodUsecs) {endTime : ℤ}
    (hdvd : avg.averagePeriodUsecs ∣ endTime) :
    avg.periodValues endTime samples = contributed avg.periodOf avg.values endTime
      (contents (buckets ++ [((afterCalls receive avg samples).endTime, members)])) := by
  rw [SampleAverager.periodValues_eq hperiod hdvd, hgroup.contents_all]
  apply Eq.symm
  apply contributed_filter
  intro samp _ hused
  exact values_eq_nil_of_not_uses hused

/-- The bucket of a period that has too few values to overflow a counter. -/
theorem valuesAt_contributed_le (avg : SampleAverager) (key : ValueSample → ℤ) (i : ℕ)
    {samp : ValueSample} {items : List ValueSample} (hmem : samp ∈ items) :
    (valuesAt i (avg.values samp)).length ≤
      (valuesAt i (contributed key avg.values (key samp) items)).length := by
  obtain ⟨first, rest, rfl⟩ := List.append_of_mem hmem
  have hown : contributed key avg.values (key samp) [samp] = avg.values samp := by
    rw [contributed_eq_flatMap (by simp), List.flatMap_singleton]
  rw [← List.singleton_append, contributed_append, contributed_append, hown, valuesAt_append,
    valuesAt_append, List.length_append, List.length_append]
  omega

/-- The outputs are those of the buckets, less the last one if there is no value in it. -/
theorem Grouping.exists_emitted (hgroup : Grouping avg samples buckets members) :
    ∃ emitted : List (ℤ × List ValueSample), emitted.Sublist
        (buckets ++ [((afterCalls receive avg samples).endTime, members)]) ∧
      avg.outputs samples = emitted.map (fun bucket =>
        avg.countedOutputOf bucket.1 (bucket.2.flatMap avg.values)) ∧
      ∀ bucket ∈ buckets ++ [((afterCalls receive avg samples).endTime, members)],
        (∃ i < avg.ndataValues,
          0 < toInt32 (valuesAt i (bucket.2.flatMap avg.values)).length) →
        bucket ∈ emitted := by
  unfold outputs
  rw [hgroup.outs]
  obtain ⟨hzero, rfl, rfl⟩ | ⟨hrunning, -, hsums⟩ := hgroup.state
  · refine ⟨[], List.nil_sublist _, ?_, ?_⟩
    · unfold flush
      rw [if_neg (by omega)]
      rfl
    · intro bucket hmem
      rw [List.nil_append, List.mem_singleton] at hmem
      subst hmem
      rintro ⟨i, -, hcount⟩
      rw [List.flatMap_nil] at hcount
      change 0 < toInt32 ((0 : ℕ) : ℤ) at hcount
      rw [toInt32_of_range (by norm_num) (by norm_num)] at hcount
      omega
  · have houtput := hsums.output_eq hgroup.config
    have hsome : (∃ i < avg.ndataValues,
        0 < toInt32 (valuesAt i (members.flatMap avg.values)).length) ↔
        ((List.range (afterCalls receive avg samples).ndataValues).any fun i =>
          (afterCalls receive avg samples).cnts i > 0) = true := by
      simp only [List.any_eq_true, List.mem_range, decide_eq_true_eq, hsums.cnts,
        hgroup.config.ndataValues, gt_iff_lt]
    by_cases hany : ∃ i < avg.ndataValues,
        0 < toInt32 (valuesAt i (members.flatMap avg.values)).length
    · refine ⟨_, List.Sublist.refl _, ?_, fun bucket hmem _ => hmem⟩
      unfold flush
      rw [if_pos hrunning, List.map_append, List.map_singleton, ← houtput]
      dsimp only
      rw [if_pos (hsome.mp hany)]
    · refine ⟨buckets, List.sublist_append_left _ _, ?_, ?_⟩
      · unfold flush
        rw [if_pos hrunning]
        dsimp only
        rw [if_neg (fun h => hany (hsome.mpr h)), List.append_nil]
      · intro bucket hmem hcount
        rcases List.mem_append.mp hmem with hmem | hmem
        · exact hmem
        · rw [List.mem_singleton] at hmem
          rw [hmem] at hcount
          exact absurd hcount hany

/-- No sample with a value is in the period of the first bucket that has a sample at its end. -/
theorem Grouping.periodValues_eq_nil (hgroup : Grouping avg samples buckets members)
    (hperiod : 0 < avg.averagePeriodUsecs) {first rest : List (ℤ × List ValueSample)}
    {bucket : ℤ × List ValueSample} {samp : ValueSample}
    (hsplit : buckets ++ [((afterCalls receive avg samples).endTime, members)] =
      first ++ bucket :: rest)
    (hproper : ∀ other ∈ first, Proper avg.periodOf avg.values other)
    (hsingle : bucket.2 = [samp]) (htime : samp.timeTag = bucket.1) :
    avg.periodValues bucket.1 samples = [] := by
  have hkeys := hgroup.keys
  have hplaced := hgroup.placed
  rw [hsplit, List.map_append, List.map_cons, List.pairwise_append, List.pairwise_cons] at hkeys
  rw [hsplit] at hplaced
  rw [hgroup.periodValues_eq hperiod
    (hplaced bucket (List.mem_append_right _ List.mem_cons_self)).1, hsplit]
  apply contributed_eq_nil
  intro item hcontents hvalues
  obtain ⟨other, hother, hitem⟩ := mem_contents.mp hcontents
  have hlate := lt_periodEnd hperiod item.timeTag
  rcases List.mem_append.mp hother with hbefore | hfrom
  · -- an earlier bucket is proper
    rw [hproper other hbefore item hitem hvalues]
    exact (hkeys.2.2 other.1 (List.mem_map_of_mem hbefore) bucket.1 List.mem_cons_self).ne
  · rcases List.mem_cons.mp hfrom with hsame | hafter
    · -- the sample itself is in the next period
      rw [hsame, hsingle, List.mem_singleton] at hitem
      rw [hitem] at hlate ⊢
      unfold periodOf
      omega
    · -- a later bucket has samples of its period or of the next one
      have hlt := hkeys.2.1.1 other.1 (List.mem_map_of_mem hafter)
      obtain ⟨-, hright | ⟨last, hlast, hlastTime⟩⟩ := hplaced other hother
      · rw [hright item hitem]
        exact hlt.ne'
      · rw [hlast, List.mem_singleton] at hitem
        rw [hitem] at hlate ⊢
        unfold periodOf
        omega

variable (hperiod : 0 < avg.averagePeriodUsecs)
  (hfew : ∀ endTime i, (valuesAt i (avg.periodValues endTime samples)).length < 2 ^ 31)

include hperiod hfew

/-- Proper buckets have the values of their periods. -/
theorem Grouping.flatMap_values (hgroup : Grouping avg samples buckets members)
    (hproper : ∀ bucket ∈ buckets ++ [((afterCalls receive avg samples).endTime, members)],
      Proper avg.periodOf avg.values bucket)
    {bucket : ℤ × List ValueSample}
    (hmem : bucket ∈ buckets ++ [((afterCalls receive avg samples).endTime, members)]) :
    bucket.2.flatMap avg.values = avg.periodValues bucket.1 samples ∧
      avg.countedOutputOf bucket.1 (bucket.2.flatMap avg.values) =
        avg.outputOf bucket.1 (avg.periodValues bucket.1 samples) := by
  have hvalues : bucket.2.flatMap avg.values = avg.periodValues bucket.1 samples := by
    rw [hgroup.periodValues_eq hperiod (hgroup.placed bucket hmem).1,
      contributed_of_mem hgroup.keys hproper hmem]
  rw [hvalues]
  exact ⟨rfl, countedOutputOf_eq _ (hfew _)⟩

/-- If all buckets are proper, the outputs are right. -/
theorem Grouping.averagesPeriods (hgroup : Grouping avg samples buckets members)
    (hproper : ∀ bucket ∈ buckets ++ [((afterCalls receive avg samples).endTime, members)],
      Proper avg.periodOf avg.values bucket) : avg.AveragesPeriods samples := by
  obtain ⟨emitted, hsublist, houts, hemitted⟩ := hgroup.exists_emitted
  constructor
  · intro out hout
    rw [houts] at hout
    obtain ⟨bucket, hbucket, rfl⟩ := List.mem_map.mp hout
    have hmem := hsublist.subset hbucket
    exact ⟨bucket.1, (hgroup.placed bucket hmem).1,
      (hgroup.flatMap_values hperiod hfew hproper hmem).2⟩
  · intro samp hsamp hne
    have hin : samp ∈ contents
        (buckets ++ [((afterCalls receive avg samples).endTime, members)]) := by
      rw [hgroup.contents_all]
      refine List.mem_filter.mpr ⟨hsamp, ?_⟩
      by_contra hused
      exact hne (values_eq_nil_of_not_uses (by simpa using hused))
    obtain ⟨bucket, hmem, hitem⟩ := mem_contents.mp hin
    have hkey : avg.periodOf samp = bucket.1 := hproper bucket hmem samp hitem hne
    obtain ⟨hvalues, -⟩ := hgroup.flatMap_values hperiod hfew hproper hmem
    -- a value of the sample is counted in its bucket
    have hcounted : bucket ∈ emitted := by
      apply hemitted bucket hmem
      obtain ⟨i, hi, hat⟩ := exists_valuesAt_ne_nil hne
      refine ⟨i, hi, ?_⟩
      have hlt := hfew bucket.1 i
      rw [hvalues, toInt32_of_range (by omega) (by exact_mod_cast hlt)]
      have hle := valuesAt_contributed_le avg avg.periodOf i hsamp
      rw [hkey, ← SampleAverager.periodValues_eq hperiod (hgroup.placed bucket hmem).1] at hle
      have := List.length_pos_iff.mpr hat
      omega
    have hnodup : ((avg.outputs samples).map AverageOutput.timeTag).Nodup := by
      rw [houts, List.map_map]
      have hkeys := hgroup.keys.sublist (hsublist.map Prod.fst)
      rw [List.Nodup, List.pairwise_map]
      rw [List.pairwise_map] at hkeys
      apply hkeys.imp
      intro first second hlt heq
      have : first.1 - avg.averagePeriodUsecs.tdiv 2 = second.1 - avg.averagePeriodUsecs.tdiv 2 :=
        heq
      omega
    have htag : periodEnd avg.averagePeriodUsecs samp.timeTag - avg.averagePeriodUsecs.tdiv 2 ∈
        (avg.outputs samples).map AverageOutput.timeTag := by
      rw [houts, List.map_map]
      refine List.mem_map.mpr ⟨bucket, hcounted, ?_⟩
      change bucket.1 - _ = avg.periodOf samp - _
      rw [hkey]
    have hcount := List.count_eq_one_of_mem hnodup htag
    rw [List.count, List.countP_map] at hcount
    rw [← hcount]
    apply List.countP_congr
    intro out _
    simp

/-- If the outputs are right, all buckets are proper: the first one that is not has an output with a
value, and there is none in its period. -/
theorem Grouping.proper_of_averagesPeriods (hgroup : Grouping avg samples buckets members)
    (haverages : avg.AveragesPeriods samples) :
    ∀ bucket ∈ buckets ++ [((afterCalls receive avg samples).endTime, members)],
      Proper avg.periodOf avg.values bucket := by
  obtain ⟨emitted, hsublist, houts, hemitted⟩ := hgroup.exists_emitted
  rcases forall_or_exists_first (Proper avg.periodOf avg.values)
    (buckets ++ [((afterCalls receive avg samples).endTime, members)]) with hall | hfirst
  · exact hall
  · exfalso
    obtain ⟨first, bucket, rest, hsplit, hproper, himproper⟩ := hfirst
    have hmem : bucket ∈ buckets ++ [((afterCalls receive avg samples).endTime, members)] := by
      rw [hsplit]
      exact List.mem_append_right _ List.mem_cons_self
    obtain ⟨hdvd, hright | ⟨samp, hsingle, htime⟩⟩ := hgroup.placed bucket hmem
    · exact himproper fun item hitem _ => hright item hitem
    · have hlate := lt_periodEnd hperiod samp.timeTag
      have hne : avg.values samp ≠ [] := by
        intro hnil
        apply himproper
        intro item hitem hvalues
        rw [hsingle, List.mem_singleton] at hitem
        rw [hitem] at hvalues
        exact absurd hnil hvalues
      have hin : samp ∈ samples := by
        have : samp ∈ contents
            (buckets ++ [((afterCalls receive avg samples).endTime, members)]) :=
          mem_contents.mpr ⟨bucket, hmem, by rw [hsingle]; exact List.mem_cons_self⟩
        rw [hgroup.contents_all] at this
        exact List.mem_of_mem_filter this
      have hnone := hgroup.periodValues_eq_nil hperiod hsplit hproper hsingle htime
      -- the counters of the bucket do not overflow
      have hfewOwn : ∀ i, (valuesAt i (avg.values samp)).length < 2 ^ 31 := by
        intro i
        have hle := valuesAt_contributed_le avg avg.periodOf i hin
        rw [← SampleAverager.periodValues_eq hperiod (by exact dvd_periodEnd)] at hle
        exact hle.trans_lt (hfew _ i)
      have hvalues : bucket.2.flatMap avg.values = avg.values samp := by
        rw [hsingle, List.flatMap_singleton]
      obtain ⟨i, hi, hat⟩ := exists_valuesAt_ne_nil hne
      have hcounted : bucket ∈ emitted := by
        refine hemitted bucket hmem ⟨i, hi, ?_⟩
        rw [hvalues, toInt32_of_range (by omega) (by exact_mod_cast hfewOwn i)]
        exact_mod_cast List.length_pos_iff.mpr hat
      have hout : avg.countedOutputOf bucket.1 (bucket.2.flatMap avg.values) ∈
          avg.outputs samples := by
        rw [houts]
        exact List.mem_map.mpr ⟨bucket, hcounted, rfl⟩
      obtain ⟨endTime, -, heq⟩ := haverages.1 _ hout
      rw [hvalues, countedOutputOf_eq _ hfewOwn] at heq
      unfold outputOf at heq
      rw [AverageOutput.mk.injEq] at heq
      have hend : endTime = bucket.1 := by omega
      rw [hend, hnone] at heq
      have hdata := (List.map_inj_left.mp heq.2) i (List.mem_range.mpr hi)
      unfold mean at hdata
      rw [if_neg hat, if_pos (by rfl)] at hdata
      cases hdata

end Outputs

/-- **The outputs are the averages of the periods exactly if no sample with a value is one period
behind the end of the last one.** -/
theorem averagesPeriods_iff (avg : SampleAverager) (samples : List ValueSample)
    (hperiod : 0 < avg.averagePeriodUsecs) (hend : avg.endTime = 0)
    (hpos : ∀ samp ∈ samples, 0 < samp.timeTag)
    (hordered : samples.Pairwise fun first second => first.timeTag ≤ second.timeTag)
    (hfew : ∀ endTime i, (valuesAt i (avg.periodValues endTime samples)).length < 2 ^ 31) :
    avg.AveragesPeriods samples ↔
      AtEvery (fun before samp => ¬ (afterCalls receive avg before).OneBehind samp) samples := by
  obtain ⟨buckets, members, hgroup⟩ := exists_grouping hperiod hend hpos hordered
  rw [hgroup.proper]
  exact ⟨hgroup.proper_of_averagesPeriods hperiod hfew, hgroup.averagesPeriods hperiod hfew⟩

theorem length_valuesAt_le (avg : SampleAverager) (samples : List ValueSample) (endTime : ℤ)
    (i : ℕ) : (valuesAt i (avg.periodValues endTime samples)).length ≤
      (samples.flatMap avg.values).length := by
  unfold valuesAt periodValues
  rw [List.length_map]
  refine (List.length_filter_le _ _).trans ?_
  exact (List.filter_sublist.flatMap avg.values).length_le

/-- Averages over a second of one variable. -/
def oneSecond : SampleAverager where
  averagePeriodUsecs := 1000000
  ndataValues := 1
  inputs id := if id = 1 then some [⟨0, 0, 1⟩] else none
  inBounds := by
    intro id vars hvars var hvar
    split at hvars
    · cases hvars
      rw [List.mem_singleton] at hvar
      rw [hvar]
      exact le_refl _
    · cases hvars

/-- Two samples of a second, and one after a gap. -/
theorem averagesPeriods_oneSecond :
    oneSecond.AveragesPeriods
      [⟨500000, 1, .float, [some 1]⟩, ⟨600000, 1, .float, [some 3]⟩,
        ⟨3200000, 1, .double, [none]⟩] := by
  refine (averagesPeriods_iff oneSecond
    [⟨500000, 1, .float, [some 1]⟩, ⟨600000, 1, .float, [some 3]⟩, ⟨3200000, 1, .double, [none]⟩]
    (by decide) rfl (by decide) (by decide) ?_).mpr (by decide)
  intro endTime i
  exact (length_valuesAt_le _ _ _ _).trans_lt (by decide)

/-- A sample at two seconds is sent with the time tag of the second before. -/
theorem outputs_oneSecond_on_boundary :
    oneSecond.outputs [⟨500000, 1, .float, [some 1]⟩, ⟨2000000, 1, .float, [some 2]⟩] =
        [⟨500000, [some 1]⟩, ⟨1500000, [some 2]⟩] ∧
      ¬ oneSecond.AveragesPeriods
        [⟨500000, 1, .float, [some 1]⟩, ⟨2000000, 1, .float, [some 2]⟩] := by
  constructor
  · decide +kernel
  · rintro ⟨-, hcount⟩
    exact absurd (hcount ⟨2000000, 1, .float, [some 2]⟩ (by decide) (by decide))
      (by decide +kernel)

end SampleAverager

end Nidas.Core
