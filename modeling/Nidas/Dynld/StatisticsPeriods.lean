import Nidas.Dynld.StatisticsCruncher

/-!
# The period of a sample

The time tag of the output that a sample contributes to should only depend on the time of the sample
and on the length of the periods, whatever was received before, and every sample should contribute
to one output.

## Strategy

One call keeps the samples that are pending, puts them into an output, or adds the new one
(`Received`), and so the samples in the outputs of a run are those that were added, with the time
tags of their periods (`placements_answers`).  A sample within a period has no choice.  A sample at
the end of a period goes to that period if it is the current one or if the loop steps up to it
(`GoesEarly`), and to the next one if the loop jumps.
-/

namespace Nidas.Dynld

open Lib Util Core

namespace StatisticsCruncher

/-! ## One call -/

/-- A sample that is accepted and has a value that is counted. -/
def Contributes (cruncher : StatisticsCruncher) (samp : ValueSample) : Prop :=
  (cruncher.receive samp).2.2 = true ∧ cruncher.countersOf samp ≠ []

instance (cruncher : StatisticsCruncher) (samp : ValueSample) :
    Decidable (cruncher.Contributes samp) :=
  inferInstanceAs (Decidable (_ ∧ _))

/-- A sample with the time tag that its output will have, if it contributes to one. -/
def placed (cruncher : StatisticsCruncher) (samp : ValueSample) : List (ValueSample × ℤ) :=
  if cruncher.Contributes samp then [(samp, (cruncher.receive samp).1.output.timeTag)] else []

/-- What a call does. -/
structure Received (cruncher : StatisticsCruncher) (samp : ValueSample) : Prop where
  config : SameConfig cruncher (cruncher.receive samp).1
  sound : Sound (cruncher.receive samp).1
  placements : placements (cruncher.receive samp).2.1 ++ (cruncher.receive samp).1.pending =
    cruncher.pending ++ cruncher.placed samp
  right : (cruncher.receive samp).2.2 = true →
    (cruncher.GoesEarly samp.timeTag → (cruncher.receive samp).1.tout = samp.timeTag) ∧
    (¬ cruncher.GoesEarly samp.timeTag →
      (cruncher.receive samp).1.tout = periodEnd cruncher.periodUsecs samp.timeTag)

section Call

variable {cruncher next : StatisticsCruncher} {outs : List StatisticsOutput}
  {samp : ValueSample} {info : SampleInfo}

theorem received_of_rejected (hadvanced : Advanced cruncher next outs)
    (hreceive : cruncher.receive samp = (next, outs, false)) : Received cruncher samp := by
  have hplaced : cruncher.placed samp = [] := by
    apply if_neg
    rintro ⟨haccepted, -⟩
    rw [hreceive] at haccepted
    cases haccepted
  constructor
  · rw [hreceive]
    exact hadvanced.config
  · rw [hreceive]
    exact hadvanced.sound
  · rw [hreceive, hplaced, List.append_nil]
    exact hadvanced.placements
  · rw [hreceive]
    intro haccepted
    cases haccepted

/-- The counters are those of the samples that are added. -/
theorem Sound.add (hsound : next.Sound) (hset : longLongMin < next.tout)
    (hinfo : next.sampleMap samp.id = some info) : (next.add info samp).Sound := by
  have hcounters : next.countersOf samp = next.counters info samp := by
    unfold countersOf
    rw [hinfo]
  refine ⟨hsound.period_pos, ?_, ?_⟩
  · rcases hsound.tout with ⟨hmin, -⟩ | htout
    · omega
    · exact Or.inr htout
  · intro i
    change (next.nSamples i + (next.counters info samp).count i) % 2 ^ 32 =
      ((if next.counters info samp = [] then next.added else next.added ++ [samp]).flatMap
        next.countersOf).count i % 2 ^ 32
    rw [hsound.counted i]
    split
    · next hnone =>
        rw [hnone, List.count_nil, Nat.add_zero, Nat.mod_mod]
    · rw [List.flatMap_append, List.flatMap_singleton, List.count_append, hcounters,
        Nat.mod_add_mod]

theorem received_of_accepted (hadvanced : Advanced cruncher next outs)
    (hinfo : cruncher.sampleMap samp.id = some info) (hset : longLongMin < next.tout)
    (hreceive : cruncher.receive samp = (next.add info samp, outs, true))
    (hright : (cruncher.GoesEarly samp.timeTag → next.tout = samp.timeTag) ∧
      (¬ cruncher.GoesEarly samp.timeTag →
        next.tout = periodEnd cruncher.periodUsecs samp.timeTag)) :
    Received cruncher samp := by
  have hsame : next.sampleMap samp.id = some info := by
    rw [hadvanced.config.sampleMap]
    exact hinfo
  have hcounters : cruncher.countersOf samp = next.counters info samp := by
    rw [← hadvanced.config.countersOf samp]
    unfold countersOf
    rw [hsame]
  have hconfig : SameConfig next (next.add info samp) := ⟨rfl, rfl, rfl, rfl, rfl, rfl, rfl⟩
  have hplaced : (next.add info samp).pending = next.pending ++ cruncher.placed samp := by
    unfold placed
    by_cases hnone : next.counters info samp = []
    · have hadded : (next.add info samp).added = next.added := if_pos hnone
      have hnot : ¬ cruncher.Contributes samp := by
        rintro ⟨-, hne⟩
        exact hne (hcounters.trans hnone)
      unfold pending
      rw [hadded, if_neg hnot, List.append_nil]
      rfl
    · have hadded : (next.add info samp).added = next.added ++ [samp] := if_neg hnone
      have hyes : cruncher.Contributes samp := by
        refine ⟨?_, fun h => hnone (hcounters.symm.trans h)⟩
        rw [hreceive]
      unfold pending
      rw [hadded, if_pos hyes, hreceive, List.map_append]
      rfl
  constructor
  · rw [hreceive]
    exact hadvanced.config.trans hconfig
  · rw [hreceive]
    exact hadvanced.sound.add hset hsame
  · rw [hreceive, hplaced, ← List.append_assoc, hadvanced.placements]
  · rw [hreceive]
    intro _
    exact hright

/-- **One call.** -/
theorem received (hsound : cruncher.Sound) (hpos : 0 < samp.timeTag) :
    Received cruncher samp := by
  cases hinfo : cruncher.sampleMap samp.id with
  | none =>
      apply received_of_rejected (Advanced.refl hsound)
      unfold receive
      rw [hinfo]
  | some info =>
      by_cases hend : cruncher.tout < samp.timeTag → samp.timeTag ≤ cruncher.endTime
      · obtain ⟨next, outs, hadvance, hadvanced, hreached, hright⟩ :=
          exists_advance hsound hpos hend
        have hset : longLongMin < next.tout := by
          unfold longLongMin
          omega
        by_cases hearly : samp.timeTag < next.tout - next.periodUsecs
        · apply received_of_rejected hadvanced
          unfold receive
          rw [hinfo, hadvance]
          exact if_pos hearly
        · by_cases hpartial : next.statsType.crossTerms = true ∧
              next.nonNANs info samp < next.ninvars
          · apply received_of_rejected hadvanced
            unfold receive
            rw [hinfo, hadvance]
            exact (if_neg hearly).trans (if_pos hpartial)
          · refine received_of_accepted hadvanced hinfo hset ?_ ?_
            · unfold receive
              rw [hinfo, hadvance]
              exact (if_neg hearly).trans (if_neg hpartial)
            · apply hright
              rw [hadvanced.config.period] at hearly
              omega
      · -- behind the end time nothing is done
        have hlate : cruncher.tout < samp.timeTag ∧ cruncher.endTime < samp.timeTag := by
          omega
        apply received_of_rejected (Advanced.refl hsound)
        have hadvance : advance samp.timeTag (cruncher.fuel samp.timeTag) cruncher =
            (cruncher, [], false) := by
          unfold fuel
          rw [advance, if_pos hlate.1, if_pos hlate.2]
        unfold receive
        rw [hinfo, hadvance]
        rfl

end Call

/-! ## Runs -/

/-- The samples of a run that contribute. -/
def contributing : StatisticsCruncher → List ValueSample → List ValueSample
  | _, [] => []
  | cruncher, samp :: samples =>
      (if cruncher.Contributes samp then [samp] else []) ++
        contributing (cruncher.receive samp).1 samples

/-- The samples of a run that contribute, with the time tags that their outputs will have. -/
def allPlaced : StatisticsCruncher → List ValueSample → List (ValueSample × ℤ)
  | _, [] => []
  | cruncher, samp :: samples =>
      cruncher.placed samp ++ allPlaced (cruncher.receive samp).1 samples

/-- A cruncher before its first sample. -/
structure Fresh (cruncher : StatisticsCruncher) : Prop where
  period_pos : 0 < cruncher.periodUsecs
  tout : cruncher.tout = longLongMin
  nSamples : cruncher.nSamples = fun _ => 0
  added : cruncher.added = []

/-- There are pending samples, and all counters are zero again. -/
def WrappedAround (cruncher : StatisticsCruncher) : Prop :=
  cruncher.added ≠ [] ∧ ∀ i < cruncher.ninvars, cruncher.nSamples i = 0

instance (cruncher : StatisticsCruncher) : Decidable cruncher.WrappedAround :=
  inferInstanceAs (Decidable (_ ∧ _))

section Run

variable {cruncher : StatisticsCruncher} {samples : List ValueSample}

theorem Fresh.sound (hfresh : cruncher.Fresh) : cruncher.Sound := by
  refine ⟨hfresh.period_pos, Or.inl ⟨hfresh.tout, hfresh.added⟩, ?_⟩
  intro i
  rw [hfresh.nSamples, hfresh.added]
  rfl

theorem Fresh.pending (hfresh : cruncher.Fresh) : cruncher.pending = [] := by
  unfold StatisticsCruncher.pending
  rw [hfresh.added]
  rfl

/-- What is kept by a run. -/
theorem run_sound (hsound : cruncher.Sound) (hpos : ∀ samp ∈ samples, 0 < samp.timeTag) :
    Sound (afterCalls receive cruncher samples) ∧
      SameConfig cruncher (afterCalls receive cruncher samples) := by
  induction samples generalizing cruncher with
  | nil => exact ⟨hsound, SameConfig.refl cruncher⟩
  | cons samp samples ih =>
      obtain ⟨hsamp, hrest⟩ := List.forall_mem_cons.mp hpos
      have hreceived := received hsound hsamp
      obtain ⟨hlast, hconfig⟩ := ih hreceived.sound hrest
      exact ⟨hlast, hreceived.config.trans hconfig⟩

/-- **The samples that contribute are in the outputs or pending.** -/
theorem placements_answers (hsound : cruncher.Sound)
    (hpos : ∀ samp ∈ samples, 0 < samp.timeTag) :
    placements ((answers receive cruncher samples).flatMap Prod.fst) ++
        (afterCalls receive cruncher samples).pending =
      cruncher.pending ++ allPlaced cruncher samples := by
  induction samples generalizing cruncher with
  | nil => exact (List.append_nil _).symm
  | cons samp samples ih =>
      obtain ⟨hsamp, hrest⟩ := List.forall_mem_cons.mp hpos
      have hreceived := received hsound hsamp
      calc placements ((answers receive cruncher (samp :: samples)).flatMap Prod.fst) ++
            (afterCalls receive cruncher (samp :: samples)).pending
          = placements (cruncher.receive samp).2.1 ++
              (placements ((answers receive (cruncher.receive samp).1 samples).flatMap Prod.fst) ++
                (afterCalls receive (cruncher.receive samp).1 samples).pending) := by
            rw [answers, List.flatMap_cons, placements_append, List.append_assoc, afterCalls]
        _ = placements (cruncher.receive samp).2.1 ++ (cruncher.receive samp).1.pending ++
              allPlaced (cruncher.receive samp).1 samples := by
            rw [ih hreceived.sound hrest, List.append_assoc]
        _ = cruncher.pending ++ allPlaced cruncher (samp :: samples) := by
            rw [hreceived.placements, List.append_assoc, allPlaced]

/-- The flush puts the pending samples into an output, unless the counters have wrapped around. -/
theorem placements_flush (hsound : cruncher.Sound) :
    placements cruncher.flush.2 = if cruncher.WrappedAround then [] else cruncher.pending := by
  have hany :
      ((List.range cruncher.ninvars).any fun i => decide (cruncher.nSamples i > 0)) = true ↔
      ¬ ∀ i < cruncher.ninvars, cruncher.nSamples i = 0 := by
    simp only [List.any_eq_true, List.mem_range, decide_eq_true_eq, gt_iff_lt, Nat.pos_iff_ne_zero,
      not_forall, exists_prop]
  by_cases hadded : cruncher.added = []
  · -- without samples the counters are zero
    have hpending : cruncher.pending = [] := by
      unfold pending
      rw [hadded]
      rfl
    have hzero : ∀ i < cruncher.ninvars, cruncher.nSamples i = 0 := by
      intro i _
      rw [hsound.counted, hadded]
      rfl
    unfold flush
    rw [if_neg (fun h => hany.mp h.2 hzero), hpending, ite_self]
    rfl
  · have hset : cruncher.tout ≠ longLongMin := by
      rcases hsound.tout with ⟨-, hnone⟩ | ⟨hset, -⟩
      · exact absurd hnone hadded
      · omega
    by_cases hzero : ∀ i < cruncher.ninvars, cruncher.nSamples i = 0
    · unfold flush
      rw [if_neg (fun h => hany.mp h.2 hzero), if_pos ⟨hadded, hzero⟩]
      rfl
    · unfold flush computeStats
      rw [if_pos ⟨hset, hany.mpr hzero⟩, if_neg hset, if_neg (fun h => hzero h.2)]
      unfold placements
      rw [List.flatMap_singleton]
      rfl

end Run

/-! ## Outputs -/

/-- Every sample that contributes is in one output. -/
def InOneOutput (cruncher : StatisticsCruncher) (samples : List ValueSample) : Prop :=
  (cruncher.outputs samples).flatMap StatisticsOutput.samples = contributing cruncher samples

/-- The time tag of the output that a sample of a run contributes to. -/
def outputTag (cruncher : StatisticsCruncher) (before : List ValueSample) (samp : ValueSample)
    (after : List ValueSample) : Option ℤ :=
  ((placements (cruncher.outputs (before ++ samp :: after)))[
    (contributing cruncher before).length]?).map Prod.snd

section Outputs

variable {cruncher : StatisticsCruncher} {samples : List ValueSample}

theorem map_fst_placements (outs : List StatisticsOutput) :
    (placements outs).map Prod.fst = outs.flatMap StatisticsOutput.samples := by
  unfold placements
  rw [List.map_flatMap]
  congr 1
  funext out
  rw [List.map_map]
  exact List.map_id _

theorem map_fst_allPlaced (cruncher : StatisticsCruncher) (samples : List ValueSample) :
    (allPlaced cruncher samples).map Prod.fst = contributing cruncher samples := by
  induction samples generalizing cruncher with
  | nil => rfl
  | cons samp samples ih =>
      rw [allPlaced, contributing, List.map_append, ih, placed]
      split
      · rfl
      · rfl

theorem allPlaced_append (cruncher : StatisticsCruncher) (before after : List ValueSample) :
    allPlaced cruncher (before ++ after) =
      allPlaced cruncher before ++ allPlaced (afterCalls receive cruncher before) after := by
  induction before generalizing cruncher with
  | nil => rfl
  | cons samp before ih =>
      rw [List.cons_append, allPlaced, ih, allPlaced, afterCalls, List.append_assoc]

theorem placements_outputs (hfresh : cruncher.Fresh) (hpos : ∀ samp ∈ samples, 0 < samp.timeTag)
    (hwrapped : ¬ (afterCalls receive cruncher samples).WrappedAround) :
    placements (cruncher.outputs samples) = allPlaced cruncher samples := by
  have hanswers := placements_answers hfresh.sound hpos
  rw [hfresh.pending, List.nil_append] at hanswers
  unfold outputs
  rw [placements_append, placements_flush (run_sound hfresh.sound hpos).1, if_neg hwrapped,
    hanswers]

/-- **The samples are in one output each, unless the counters have wrapped around in the last
period.** -/
theorem inOneOutput_iff (hfresh : cruncher.Fresh) (hpos : ∀ samp ∈ samples, 0 < samp.timeTag) :
    cruncher.InOneOutput samples ↔ ¬ (afterCalls receive cruncher samples).WrappedAround := by
  unfold InOneOutput
  rw [← map_fst_placements, ← map_fst_allPlaced]
  constructor
  · intro hall hwrapped
    -- the samples of the last period are missing
    have hanswers := placements_answers hfresh.sound hpos
    rw [hfresh.pending, List.nil_append] at hanswers
    unfold outputs at hall
    rw [placements_append, placements_flush (run_sound hfresh.sound hpos).1, if_pos hwrapped,
      List.append_nil, ← hanswers, List.map_append, List.self_eq_append_right] at hall
    apply hwrapped.1
    unfold pending at hall
    rw [List.map_eq_nil_iff, List.map_eq_nil_iff] at hall
    exact hall
  · intro hwrapped
    rw [placements_outputs hfresh hpos hwrapped]

theorem outputTag_eq (hfresh : cruncher.Fresh) {before after : List ValueSample}
    {samp : ValueSample} (hpos : ∀ other ∈ before ++ samp :: after, 0 < other.timeTag)
    (hwrapped : ¬ (afterCalls receive cruncher (before ++ samp :: after)).WrappedAround)
    (hcontributes : (afterCalls receive cruncher before).Contributes samp) :
    cruncher.outputTag before samp after =
      some (((afterCalls receive cruncher before).receive samp).1.tout -
        cruncher.periodUsecs.tdiv 2) := by
  obtain ⟨hbefore, hfrom⟩ := List.forall_mem_append.mp hpos
  obtain ⟨hsound, hconfig⟩ := run_sound hfresh.sound hbefore
  have hreceived := received hsound (hfrom samp List.mem_cons_self)
  have hperiod : ((afterCalls receive cruncher before).receive samp).1.periodUsecs =
      cruncher.periodUsecs := hreceived.config.period.trans hconfig.period
  unfold outputTag
  rw [placements_outputs hfresh hpos hwrapped, allPlaced_append, allPlaced, placed,
    if_pos hcontributes, ← map_fst_allPlaced, List.length_map,
    List.getElem?_append_right (le_refl _), Nat.sub_self, List.singleton_append,
    List.getElem?_cons_zero, Option.map_some, ← hperiod]
  rfl

end Outputs

/-- **Two runs take samples of one time to the same period exactly if both go to the earlier period
or neither does.** -/
theorem sameOutputTag_iff {first second : StatisticsCruncher} (hfirst : first.Fresh)
    (hsecond : second.Fresh) (hsame : first.periodUsecs = second.periodUsecs)
    (before : List ValueSample) (samp : ValueSample) (after : List ValueSample)
    (before' : List ValueSample) (samp' : ValueSample) (after' : List ValueSample)
    (hpos : ∀ other ∈ before ++ samp :: after, 0 < other.timeTag)
    (hpos' : ∀ other ∈ before' ++ samp' :: after', 0 < other.timeTag)
    (htime : samp.timeTag = samp'.timeTag)
    (hcontributes : (afterCalls receive first before).Contributes samp)
    (hcontributes' : (afterCalls receive second before').Contributes samp') :
    (first.InOneOutput (before ++ samp :: after) ∧
        second.InOneOutput (before' ++ samp' :: after') ∧
        first.outputTag before samp after = second.outputTag before' samp' after') ↔
      ¬ (afterCalls receive first (before ++ samp :: after)).WrappedAround ∧
        ¬ (afterCalls receive second (before' ++ samp' :: after')).WrappedAround ∧
        ((afterCalls receive first before).GoesEarly samp.timeTag ↔
          (afterCalls receive second before').GoesEarly samp'.timeTag) := by
  rw [inOneOutput_iff hfirst hpos, inOneOutput_iff hsecond hpos']
  apply and_congr_right
  intro hwrapped
  apply and_congr_right
  intro hwrapped'
  obtain ⟨hbefore, hfrom⟩ := List.forall_mem_append.mp hpos
  obtain ⟨hbefore', hfrom'⟩ := List.forall_mem_append.mp hpos'
  obtain ⟨hsound, hconfig⟩ := run_sound hfirst.sound hbefore
  obtain ⟨hsound', hconfig'⟩ := run_sound hsecond.sound hbefore'
  obtain ⟨hearly, hlate⟩ :=
    (received hsound (hfrom samp List.mem_cons_self)).right hcontributes.1
  obtain ⟨hearly', hlate'⟩ :=
    (received hsound' (hfrom' samp' List.mem_cons_self)).right hcontributes'.1
  have hlt := lt_periodEnd hfirst.period_pos samp.timeTag
  rw [outputTag_eq hfirst hpos hwrapped hcontributes,
    outputTag_eq hsecond hpos' hwrapped' hcontributes', Option.some.injEq, ← hsame,
    sub_left_inj]
  rw [hconfig.period] at hlate
  rw [hconfig'.period, ← hsame, ← htime] at hlate'
  rw [← htime] at hearly' ⊢
  by_cases hgoes : (afterCalls receive first before).GoesEarly samp.timeTag
  · by_cases hgoes' : (afterCalls receive second before').GoesEarly samp.timeTag
    · exact iff_of_true ((hearly hgoes).trans (hearly' hgoes').symm) (iff_of_true hgoes hgoes')
    · refine iff_of_false ?_ (fun h => hgoes' (h.mp hgoes))
      rw [hearly hgoes, hlate' hgoes']
      exact hlt.ne
  · by_cases hgoes' : (afterCalls receive second before').GoesEarly samp.timeTag
    · refine iff_of_false ?_ (fun h => hgoes (h.mpr hgoes'))
      rw [hlate hgoes, hearly' hgoes']
      exact hlt.ne'
    · exact iff_of_true ((hlate hgoes).trans (hlate' hgoes').symm) (iff_of_false hgoes hgoes')

/-- Means over a second of one variable. -/
def oneSecondMean : StatisticsCruncher where
  periodUsecs := 1000000
  statsType := .mean
  ninvars := 1
  sampleMap id := if id = 1 then some { varIndices := [(0, 0)] } else none
  ninvars_pos := Nat.one_pos
  inBounds := by
    intro id info hinfo index hindex
    split at hinfo
    · cases hinfo
      rw [List.mem_singleton] at hindex
      rw [hindex]
      exact Nat.one_pos
    · cases hinfo

theorem fresh_oneSecondMean : oneSecondMean.Fresh := ⟨by decide, rfl, rfl, rfl⟩

/-- A sample within a second, once alone and once after another. -/
theorem sameOutputTag_oneSecondMean :
    oneSecondMean.InOneOutput [⟨700000, 1, .float, [some 1]⟩] ∧
      oneSecondMean.InOneOutput [⟨500000, 1, .float, [some 3]⟩, ⟨700000, 1, .float, [some 1]⟩] ∧
      oneSecondMean.outputTag [] ⟨700000, 1, .float, [some 1]⟩ [] =
        oneSecondMean.outputTag [⟨500000, 1, .float, [some 3]⟩]
          ⟨700000, 1, .float, [some 1]⟩ [] := by
  refine (sameOutputTag_iff fresh_oneSecondMean fresh_oneSecondMean rfl
    [] ⟨700000, 1, .float, [some 1]⟩ []
    [⟨500000, 1, .float, [some 3]⟩] ⟨700000, 1, .float, [some 1]⟩ []
    (by decide) (by decide) rfl (by decide +kernel) (by decide +kernel)).mpr
    ⟨by decide +kernel, by decide +kernel, ?_⟩
  have hwithin : ¬ (1000000 : ℤ) ∣ 700000 := by decide
  exact iff_of_false (fun h => hwithin h.1) (fun h => hwithin h.1)

/-- A sample at the end of a second is in that one if a sample of it was received before, and in the
next one otherwise. -/
theorem outputTag_oneSecondMean_on_boundary :
    oneSecondMean.Contributes ⟨1000000, 1, .float, [some 1]⟩ ∧
      (afterCalls receive oneSecondMean [⟨500000, 1, .float, [some 3]⟩]).Contributes
        ⟨1000000, 1, .float, [some 1]⟩ ∧
      oneSecondMean.outputTag [] ⟨1000000, 1, .float, [some 1]⟩ [] = some 1500000 ∧
      oneSecondMean.outputTag [⟨500000, 1, .float, [some 3]⟩] ⟨1000000, 1, .float, [some 1]⟩ [] =
        some 500000 := by
  decide +kernel

end StatisticsCruncher

end Nidas.Dynld
