import Nidas.Dynld.StatisticsNamed
import Nidas.Dynld.StatisticsPeriods

/-!
# Runs of a cruncher

`SummingCruncher` has the periods of a `StatisticsCruncher` and the sums of its cross terms.  The
model of the periods keeps the samples themselves in place of the sums, and is the abstract one
here: `summing` makes the sums of the samples that it keeps.  Every call of a summing cruncher is
the call of the periods (`receive_summing`, `flush_summing`).  So over a whole run each output has
the statistics of exactly the samples of its period (`outputs_connect`).
-/

namespace Nidas.Dynld.CrossTerms

open Core Lib

/-! ## The cruncher -/

/-- The members of a `StatisticsCruncher` that are used for cross terms, of which `_sampleMap` has
one sample id. -/
structure SummingCruncher where
  request : Request
  combs : Combinations
  sums : Sums
  sampleId : ℕ
  info : SampleInfo
  periodUsecs : ℤ
  fillGaps : Bool
  startTime : ℤ
  endTime : ℤ
  tout : ℤ

/-- An output sample, with `none` for not-a-number. -/
structure CrossOutput where
  timeTag : ℤ
  data : List (Option ℚ)

namespace SummingCruncher

/-- The end of `connect`, with the values that new memory happens to have. -/
def connect (junk : ℚ) (junkCount : ℕ) (cruncher : SummingCruncher) :
    Except Fault SummingCruncher := do
  let combs ← cruncher.request.createCombinations
  let allocated ← cruncher.request.initStats junk junkCount combs
  let sums ← allocated.zeroStats combs
  pure { cruncher with combs := combs, sums := sums }

/-- `computeStats`, with the sample that is distributed. -/
def computeStats (cruncher : SummingCruncher) :
    Except Fault (SummingCruncher × List CrossOutput) :=
  if cruncher.tout = longLongMin then pure (cruncher, [])
  else do
    let (outData, sums) ← cruncher.request.computeStats cruncher.combs cruncher.sums
    pure ({ cruncher with sums := sums }, [⟨cruncher.tout - cruncher.periodUsecs.tdiv 2, outData⟩])

/-- The first period is that of the start time if gaps are filled. -/
def started (cruncher : SummingCruncher) : SummingCruncher :=
  if cruncher.tout = longLongMin ∧ cruncher.startTime ≠ longLongMin ∧ cruncher.fillGaps then
    { cruncher with
      tout := cruncher.startTime + cruncher.periodUsecs -
        cruncher.startTime.tmod cruncher.periodUsecs }
  else cruncher

/-- The body of the loop in `receive`, behind the test of the end time. -/
def iterate (cruncher : SummingCruncher) (tt : ℤ) :
    Except Fault (SummingCruncher × List CrossOutput) := do
  let begun := cruncher.started
  let (next, outs) ← begun.computeStats
  pure ({ next with
      tout :=
        if ¬ begun.fillGaps ∨ begun.tout = longLongMin then
          tt - tt.tmod begun.periodUsecs + begun.periodUsecs
        else begun.tout + begun.periodUsecs },
    outs)

/-- The loop in `receive`, with whether the sample is not behind the end time. -/
def advance (tt : ℤ) :
    ℕ → SummingCruncher → Except Fault (SummingCruncher × List CrossOutput × Bool)
  | 0, cruncher => pure (cruncher, [], true)
  | fuel + 1, cruncher =>
      if tt > cruncher.tout then
        if tt > cruncher.endTime then pure (cruncher, [], false)
        else do
          let (next, outs) ← cruncher.iterate tt
          let (last, more, inTime) ← advance tt fuel next
          pure (last, outs ++ more, inTime)
      else pure (cruncher, [], true)

/-- More iterations than there are. -/
def fuel (cruncher : SummingCruncher) (tt : ℤ) : ℕ :=
  (tt - cruncher.tout).toNat + (tt - cruncher.startTime).toNat + 2

/-- What `receive` does with a sample behind the loop. -/
def store (cruncher : SummingCruncher) (samp : ValueSample) : Except Fault SummingCruncher :=
  if samp.timeTag < cruncher.tout - cruncher.periodUsecs then pure cruncher
  else do
    let sums ← cruncher.request.receive cruncher.combs cruncher.info cruncher.sums samp
    pure { cruncher with sums := sums }

/-- `receive`, with the samples that are distributed. -/
def receive (cruncher : SummingCruncher) (samp : ValueSample) :
    Except Fault (SummingCruncher × List CrossOutput) :=
  if samp.id ≠ cruncher.sampleId then pure (cruncher, [])
  else do
    let (next, outs, inTime) ← advance samp.timeTag (cruncher.fuel samp.timeTag) cruncher
    if inTime then do
      let last ← next.store samp
      pure (last, outs)
    else pure (next, outs)

/-- `flush` -/
def flush (cruncher : SummingCruncher) : Except Fault (SummingCruncher × List CrossOutput) :=
  if cruncher.tout = longLongMin then pure (cruncher, [])
  else do
    let counts ← (List.range cruncher.request.ninvars).mapM fun i =>
      access cruncher.sums.nSamples[i]?
    if counts.any (· > 0) then do
      let (next, outs) ← cruncher.computeStats
      pure ({ next with tout := next.tout + next.periodUsecs }, outs)
    else pure (cruncher, [])

/-- Some samples, with the samples that are distributed. -/
def receiveAll : SummingCruncher → List ValueSample →
    Except Fault (SummingCruncher × List CrossOutput)
  | cruncher, [] => pure (cruncher, [])
  | cruncher, samp :: samples => do
      let (next, outs) ← cruncher.receive samp
      let (last, more) ← receiveAll next samples
      pure (last, outs ++ more)

/-- All outputs for a sequence of samples that is ended by a flush. -/
def outputs (cruncher : SummingCruncher) (samples : List ValueSample) :
    Except Fault (List CrossOutput) := do
  let (last, outs) ← cruncher.receiveAll samples
  let (_, more) ← last.flush
  pure (outs ++ more)

end SummingCruncher

/-! ## The sums of the periods -/

/-- The values that are put out for some samples: the statistics by their names and the count, or
not-a-number for no samples. -/
def Request.report (request : Request) (info : SampleInfo) (samples : List ValueSample) :
    List (Option ℚ) :=
  (if samples = [] then List.replicate request.outVariables.length none
    else request.values info samples) ++ [some (samples.length : ℚ)]

section Runs

variable (request : Request) (info : SampleInfo) (sampleId : ℕ)

/-- What is put out for a period. -/
def reported (out : StatisticsOutput) : CrossOutput :=
  ⟨out.timeTag, request.report info out.samples⟩

/-- The cruncher with the sums of the samples. -/
def summing (periods : StatisticsCruncher) : SummingCruncher where
  request := request
  combs := request.combinations
  sums := request.sumsOf info periods.added
  sampleId := sampleId
  info := info
  periodUsecs := periods.periodUsecs
  fillGaps := periods.fillGaps
  startTime := periods.startTime
  endTime := periods.endTime
  tout := periods.tout

/-- The periods of a cruncher for cross terms, between two calls: there is one sample id, and the
samples that have been added are complete. -/
structure Periods (periods : StatisticsCruncher) : Prop where
  sampleMap : periods.sampleMap = fun id => if id = sampleId then some info else none
  statsType : periods.statsType = request.type.statsType
  ninvars : periods.ninvars = request.ninvars
  complete : ∀ samp ∈ periods.added, Complete request info samp
  counted : periods.nSamples = fun i => if i = 0 then periods.added.length % 2 ^ 32 else 0

/-- What a request must be for its statistics to be computed. -/
structure Computable : Prop where
  admissible : request.Admissible
  rows : ¬ (request.type = .sflux ∧ (request.ninvars = 2 ∨ request.ninvars = 3))

/-- The count of the samples fits in its type. -/
def Few (outs : List StatisticsOutput) : Prop := ∀ out ∈ outs, out.samples.length < 2 ^ 31

variable {request info sampleId} {periods : StatisticsCruncher}

theorem Periods.withTout (h : Periods request info sampleId periods) (tout : ℤ) :
    Periods request info sampleId { periods with tout := tout } :=
  ⟨h.sampleMap, h.statsType, h.ninvars, h.complete, h.counted⟩

theorem Periods.computeStats (h : Periods request info sampleId periods) :
    Periods request info sampleId periods.computeStats.1 := by
  unfold StatisticsCruncher.computeStats
  split
  · exact h
  · exact ⟨h.sampleMap, h.statsType, h.ninvars, by simp [StatisticsCruncher.zeroStats], by
      funext i
      simp [StatisticsCruncher.zeroStats]⟩

theorem Periods.started (h : Periods request info sampleId periods) :
    Periods request info sampleId periods.started := by
  unfold StatisticsCruncher.started
  split
  · exact h.withTout _
  · exact h

/-- No samples. -/
theorem computeStats_nil (hrequest : request.Admissible) :
    request.computeStats request.combinations (request.sumsOf info []) =
      pure (request.report info [], request.sumsOf info []) := by
  have hmoments : request.computeMoments request.combinations (request.sumsOf info []) 0 =
      pure (List.replicate request.outVariables.length none) := by
    unfold Request.computeMoments
    rw [if_pos rfl, forRange_eq_foldlM_map
      (fun outData value => putOut (request.sumsOf info []).outlen value outData) (fun _ => none)
      fun _ _ _ _ => rfl, foldlM_putOut (by simp [Request.combinations, Request.sumsOf])]
    simp [Request.combinations]
  have hcount : (request.sumsOf info []).nSamples[0]? = some 0 := rfl
  have hntot : decide ((List.replicate request.outVariables.length (none : Option ℚ)).length =
      request.combinations.ntot) = true := by
    simp [Request.combinations]
  have hinside : (List.replicate request.outVariables.length (none : Option ℚ)).length <
      (request.sumsOf info []).outlen := by
    simp [Request.sumsOf]
  unfold Request.computeStats Request.report
  rw [hcount, access_some, pure_bind]
  dsimp only
  rw [Int.ofNat_zero, toInt32_of_range (by omega) (by omega), hmoments, pure_bind, hntot,
    assert_true, pure_bind, putOut_of_lt hinside, pure_bind,
    zeroStats_eq hrequest (allocated_sumsOf hrequest), pure_bind, if_pos rfl]
  rfl

theorem computeStats_report (hcomputable : Computable request) {samples : List ValueSample}
    (hfew : samples.length < 2 ^ 31) :
    request.computeStats request.combinations (request.sumsOf info samples) =
      pure (request.report info samples, request.sumsOf info []) := by
  unfold Request.report
  by_cases hsamples : samples = []
  · subst hsamples
    exact computeStats_nil hcomputable.admissible
  · rw [if_neg hsamples, computeStats_eq hcomputable.admissible hsamples hfew
      (momentRows_eq hcomputable.admissible hcomputable.rows)]

theorem computeStats_summing (hcomputable : Computable request)
    (hfew : Few periods.computeStats.2) :
    (summing request info sampleId periods).computeStats =
      pure (summing request info sampleId periods.computeStats.1,
        periods.computeStats.2.map (reported request info)) := by
  unfold StatisticsCruncher.computeStats at hfew ⊢
  unfold SummingCruncher.computeStats
  by_cases htout : periods.tout = longLongMin
  · have hsame : (summing request info sampleId periods).tout = longLongMin := htout
    rw [if_pos htout, if_pos hsame]
    rfl
  · have hsame : (summing request info sampleId periods).tout ≠ longLongMin := htout
    rw [if_neg htout] at hfew ⊢
    rw [if_neg hsame]
    have hcount : periods.added.length < 2 ^ 31 := hfew _ (List.mem_singleton.mpr rfl)
    have hstats : request.computeStats request.combinations (request.sumsOf info periods.added) =
        pure (request.report info periods.added, request.sumsOf info []) :=
      computeStats_report hcomputable hcount
    dsimp only [summing]
    rw [hstats]
    rfl

/-! ## The loop -/

theorem Periods.iterate (h : Periods request info sampleId periods) (tt : ℤ) :
    Periods request info sampleId (periods.iterate tt).1 :=
  h.started.computeStats.withTout _

theorem started_summing :
    (summing request info sampleId periods).started =
      summing request info sampleId periods.started := by
  unfold SummingCruncher.started StatisticsCruncher.started
  by_cases hbegin : periods.tout = longLongMin ∧ periods.startTime ≠ longLongMin ∧
      periods.fillGaps = true
  · rw [if_pos hbegin]
    exact if_pos hbegin
  · rw [if_neg hbegin]
    exact if_neg hbegin

theorem iterate_summing (hcomputable : Computable request) {tt : ℤ}
    (hfew : Few (periods.iterate tt).2) :
    (summing request info sampleId periods).iterate tt =
      pure (summing request info sampleId (periods.iterate tt).1,
        (periods.iterate tt).2.map (reported request info)) := by
  have hstats := @computeStats_summing request info sampleId _ hcomputable hfew
  unfold SummingCruncher.iterate
  dsimp only
  rw [started_summing, hstats]
  rfl

theorem Few.append {first rest : List StatisticsOutput} (hfew : Few (first ++ rest)) :
    Few first ∧ Few rest :=
  List.forall_mem_append.mp hfew

/-- The loop, with as many iterations. -/
theorem advance_summing (hcomputable : Computable request) {tt : ℤ} {n : ℕ}
    (h : Periods request info sampleId periods)
    (hfew : Few (StatisticsCruncher.advance tt n periods).2.1) :
    SummingCruncher.advance tt n (summing request info sampleId periods) =
        pure (summing request info sampleId (StatisticsCruncher.advance tt n periods).1,
          (StatisticsCruncher.advance tt n periods).2.1.map (reported request info),
          (StatisticsCruncher.advance tt n periods).2.2) ∧
      Periods request info sampleId (StatisticsCruncher.advance tt n periods).1 := by
  induction n generalizing periods with
  | zero => exact ⟨rfl, h⟩
  | succ n ih =>
      by_cases hlt : periods.tout < tt
      · by_cases hend : tt ≤ periods.endTime
        · rw [StatisticsCruncher.advance_of_lt hlt hend] at hfew ⊢
          obtain ⟨hfirst, hrest⟩ := hfew.append
          obtain ⟨hadvance, hperiods⟩ := ih (h.iterate tt) hrest
          refine ⟨?_, hperiods⟩
          have hlate : tt > (summing request info sampleId periods).tout := hlt
          have hinTime : ¬ tt > (summing request info sampleId periods).endTime :=
            not_lt.mpr hend
          rw [SummingCruncher.advance, if_pos hlate, if_neg hinTime,
            iterate_summing hcomputable hfirst, pure_bind]
          dsimp only
          rw [hadvance, List.map_append]
          rfl
        · have hlate : tt > periods.endTime := not_le.mp hend
          rw [StatisticsCruncher.advance, if_pos hlt, if_pos hlate]
          refine ⟨?_, h⟩
          rw [SummingCruncher.advance]
          exact (if_pos hlt).trans (if_pos hlate)
      · rw [StatisticsCruncher.advance, if_neg hlt]
        exact ⟨(SummingCruncher.advance.eq_2 ..).trans (if_neg hlt), h⟩

/-! ## Calls -/

/-- A sample that is counted as complete has a number for each input variable. -/
def Honest (request : Request) (info : SampleInfo) (samp : ValueSample) : Prop :=
  request.ninvars ≤ nonNANs info samp → ∀ index ∈ info.varIndices, (samp.value? index.1).isSome

theorem counters_eq (h : Periods request info sampleId periods) (samp : ValueSample) :
    periods.counters info samp = [0] := by
  unfold StatisticsCruncher.counters
  rw [h.statsType]
  cases request.type <;> rfl

/-- A complete sample. -/
theorem Periods.add (h : Periods request info sampleId periods) {samp : ValueSample}
    (hcomplete : Complete request info samp) :
    Periods request info sampleId (periods.add info samp) := by
  have hcounters := counters_eq h samp
  have hadded : (periods.add info samp).added = periods.added ++ [samp] := by
    unfold StatisticsCruncher.add
    rw [hcounters]
    rfl
  constructor
  case sampleMap => exact h.sampleMap
  case statsType => exact h.statsType
  case ninvars => exact h.ninvars
  case complete =>
    intro other hmem
    rw [hadded] at hmem
    rcases List.mem_append.mp hmem with hbefore | hlast
    · exact h.complete other hbefore
    · rw [List.mem_singleton.mp hlast]
      exact hcomplete
  case counted =>
    funext i
    rw [hadded]
    unfold StatisticsCruncher.add
    dsimp only
    rw [hcounters, h.counted]
    by_cases hzero : i = 0
    · simp [hzero, Nat.mod_add_mod]
    · simp [hzero, Ne.symm hzero]

theorem receive_sums (hcomputable : Computable request)
    (h : Periods request info sampleId periods) {samp : ValueSample}
    (hcomplete : Complete request info samp) :
    request.receive request.combinations info (request.sumsOf info periods.added) samp =
      pure (request.sumsOf info (periods.add info samp).added) := by
  rw [receive_eq hcomputable.admissible hcomplete]
  unfold StatisticsCruncher.add
  rw [counters_eq h]
  rfl

/-- The periods behind the loop. -/
def stored (info : SampleInfo) (samp : ValueSample) (periods : StatisticsCruncher) :
    StatisticsCruncher :=
  if samp.timeTag < periods.tout - periods.periodUsecs then periods
  else if periods.statsType.crossTerms ∧ periods.nonNANs info samp < periods.ninvars then periods
  else periods.add info samp

theorem receive_stored {samp : ValueSample} (hinfo : periods.sampleMap samp.id = some info)
    {next : StatisticsCruncher} {outs : List StatisticsOutput} {inTime : Bool}
    (hadvance : StatisticsCruncher.advance samp.timeTag (periods.fuel samp.timeTag) periods =
      (next, outs, inTime)) :
    (periods.receive samp).1 = (if inTime then stored info samp next else next) ∧
      (periods.receive samp).2.1 = outs := by
  unfold StatisticsCruncher.receive stored
  rw [hinfo]
  dsimp only
  rw [hadvance]
  dsimp only
  cases inTime with
  | false => exact ⟨rfl, rfl⟩
  | true =>
      simp only [Bool.not_true, Bool.false_eq_true, if_false, if_true]
      split_ifs
      · exact ⟨rfl, rfl⟩
      · exact ⟨rfl, rfl⟩
      · exact ⟨rfl, rfl⟩

theorem store_summing (hcomputable : Computable request)
    (hinputs : info.varIndices.length = request.ninvars)
    (h : Periods request info sampleId periods) {samp : ValueSample}
    (hhonest : Honest request info samp) :
    (summing request info sampleId periods).store samp =
        pure (summing request info sampleId (stored info samp periods)) ∧
      Periods request info sampleId (stored info samp periods) := by
  have hpartial : (periods.statsType.crossTerms = true ∧
      periods.nonNANs info samp < periods.ninvars) ↔ nonNANs info samp < request.ninvars := by
    have hcross : periods.statsType.crossTerms = true := by
      rw [h.statsType]
      exact request.type.crossTerms_statsType
    rw [nonNANs_eq hcross, h.ninvars]
    exact and_iff_right hcross
  unfold stored
  by_cases hearly : samp.timeTag < periods.tout - periods.periodUsecs
  · rw [if_pos hearly]
    exact ⟨if_pos hearly, h⟩
  · rw [if_neg hearly, if_congr hpartial rfl rfl]
    by_cases hfew : nonNANs info samp < request.ninvars
    · rw [if_pos hfew]
      have hsums : request.receive request.combinations info (request.sumsOf info periods.added)
          samp = pure (request.sumsOf info periods.added) := if_pos hfew
      refine ⟨(if_neg hearly).trans ?_, h⟩
      dsimp only [summing]
      rw [hsums]
      rfl
    · rw [if_neg hfew]
      have hcomplete : Complete request info samp :=
        ⟨hinputs, hhonest (Nat.le_of_not_lt hfew), Nat.le_of_not_lt hfew⟩
      refine ⟨(if_neg hearly).trans ?_, h.add hcomplete⟩
      dsimp only [summing]
      rw [receive_sums hcomputable h hcomplete]
      rfl

/-- **One call**: what it does to the sums is what it does to the samples. -/
theorem receive_summing (hcomputable : Computable request)
    (hinputs : info.varIndices.length = request.ninvars)
    (h : Periods request info sampleId periods) {samp : ValueSample}
    (hhonest : Honest request info samp) (hfew : Few (periods.receive samp).2.1) :
    (summing request info sampleId periods).receive samp =
        pure (summing request info sampleId (periods.receive samp).1,
          (periods.receive samp).2.1.map (reported request info)) ∧
      Periods request info sampleId (periods.receive samp).1 := by
  by_cases hid : samp.id = sampleId
  · have hinfo : periods.sampleMap samp.id = some info := by
      rw [h.sampleMap]
      exact if_pos hid
    obtain ⟨⟨next, outs, inTime⟩, hnext⟩ : ∃ result, StatisticsCruncher.advance samp.timeTag
      (periods.fuel samp.timeTag) periods = result := ⟨_, rfl⟩
    obtain ⟨hstate, houts⟩ := receive_stored hinfo hnext
    rw [houts] at hfew
    have hloop := @advance_summing request info sampleId periods hcomputable samp.timeTag
      (periods.fuel samp.timeTag) h (by rwa [hnext])
    rw [hnext] at hloop
    rw [hstate, houts]
    refine ⟨(if_neg (not_not.mpr hid)).trans ?_, ?_⟩
    · have hfuel : (summing request info sampleId periods).fuel samp.timeTag =
          periods.fuel samp.timeTag := rfl
      rw [hfuel, hloop.1, pure_bind]
      cases inTime with
      | false => rfl
      | true =>
          dsimp only
          rw [if_pos rfl, if_pos rfl, (store_summing hcomputable hinputs hloop.2 hhonest).1]
          rfl
    · cases inTime with
      | false => exact hloop.2
      | true => exact (store_summing hcomputable hinputs hloop.2 hhonest).2
  · have hreceive : periods.receive samp = (periods, [], false) := by
      have hnone : periods.sampleMap samp.id = none := by
        rw [h.sampleMap]
        exact if_neg hid
      unfold StatisticsCruncher.receive
      rw [hnone]
    rw [hreceive]
    exact ⟨if_pos hid, h⟩

/-! ## Runs -/

theorem mapM_access {n : ℕ} (cells : List ℕ) (hle : n ≤ cells.length) :
    ((List.range n).mapM fun i => access cells[i]?) = pure (cells.take n) := by
  induction n with
  | zero => rfl
  | succ n ih =>
      have hlt : n < cells.length := hle
      rw [List.range_succ, List.mapM_append, ih (by omega), pure_bind,
        List.take_add_one, List.mapM_cons, List.getElem?_eq_getElem hlt]
      rfl

/-- The counters that a flush looks at. -/
theorem any_counts (h : Periods request info sampleId periods) :
    ((request.sumsOf info periods.added).nSamples.any (· > 0)) =
      ((List.range periods.ninvars).any fun i => periods.nSamples i > 0) := by
  obtain ⟨n, hn⟩ := Nat.exists_eq_succ_of_ne_zero periods.ninvars_pos.ne'
  rw [hn, List.range_succ_eq_map, h.counted]
  dsimp only [Request.sumsOf]
  rw [List.any_cons, List.any_cons]
  simp [List.any_map]

theorem flush_summing (hcomputable : Computable request)
    (h : Periods request info sampleId periods) (hfew : Few periods.flush.2) :
    (summing request info sampleId periods).flush =
      pure (summing request info sampleId periods.flush.1,
        periods.flush.2.map (reported request info)) := by
  have hcells : ((List.range (summing request info sampleId periods).request.ninvars).mapM
      fun i => access (summing request info sampleId periods).sums.nSamples[i]?) =
        pure (request.sumsOf info periods.added).nSamples := by
    have hpos := hcomputable.admissible.pos
    have hlength : (request.sumsOf info periods.added).nSamples.length = request.ninvars := by
      simp [Request.sumsOf]
      omega
    dsimp only [summing]
    rw [mapM_access _ hlength.ge, ← hlength, List.take_length]
  unfold SummingCruncher.flush
  unfold StatisticsCruncher.flush at hfew ⊢
  by_cases hset : periods.tout ≠ longLongMin ∧
      ((List.range periods.ninvars).any fun i => decide (periods.nSamples i > 0)) = true
  · rw [if_pos hset] at hfew ⊢
    have hstats := @computeStats_summing request info sampleId _ hcomputable hfew
    have hcomputed : periods.computeStats = (periods.zeroStats, [periods.output]) :=
      if_neg hset.1
    refine (if_neg hset.1).trans ?_
    rw [hcells, pure_bind, any_counts h, if_pos hset.2, hstats, hcomputed]
    rfl
  · rw [if_neg hset]
    by_cases htout : periods.tout = longLongMin
    · exact if_pos htout
    · refine (if_neg htout).trans ?_
      rw [hcells, pure_bind, any_counts h, if_neg fun hany => hset ⟨htout, hany⟩]
      rfl

/-- The samples of a run. -/
theorem receiveAll_summing (hcomputable : Computable request)
    (hinputs : info.varIndices.length = request.ninvars)
    (h : Periods request info sampleId periods) {samples : List ValueSample}
    (hhonest : ∀ samp ∈ samples, Honest request info samp)
    (hfew : Few ((answers StatisticsCruncher.receive periods samples).flatMap Prod.fst)) :
    (summing request info sampleId periods).receiveAll samples =
        pure (summing request info sampleId
            (afterCalls StatisticsCruncher.receive periods samples),
          ((answers StatisticsCruncher.receive periods samples).flatMap Prod.fst).map
            (reported request info)) ∧
      Periods request info sampleId (afterCalls StatisticsCruncher.receive periods samples) := by
  induction samples generalizing periods with
  | nil => exact ⟨rfl, h⟩
  | cons samp samples ih =>
      obtain ⟨hsamp, hsamples⟩ := List.forall_mem_cons.mp hhonest
      rw [answers, List.flatMap_cons] at hfew ⊢
      obtain ⟨hfirst, hrest⟩ := hfew.append
      obtain ⟨hreceive, hnext⟩ := receive_summing hcomputable hinputs h hsamp hfirst
      obtain ⟨hlast, hperiods⟩ := ih hnext hsamples hrest
      refine ⟨?_, hperiods⟩
      rw [SummingCruncher.receiveAll, hreceive, pure_bind]
      dsimp only
      rw [hlast, pure_bind, List.map_append]
      rfl

/-- The sums of a cruncher before its first sample. -/
theorem connect_summing (hrequest : request.Admissible) (hadded : periods.added = []) (junk : ℚ)
    (junkCount : ℕ) :
    (summing request info sampleId periods).connect junk junkCount =
      pure (summing request info sampleId periods) := by
  obtain ⟨allocated, hinit, hallocated⟩ := initStats_eq hrequest junk junkCount
  unfold SummingCruncher.connect
  dsimp only [summing]
  rw [createCombinations_eq hrequest, pure_bind, hinit, pure_bind,
    @zeroStats_eq request info hrequest allocated hallocated, pure_bind, hadded]

end Runs

/-! ## Covariances of two variables -/

theorem inBounds_infoOfTwo (id : ℕ) (info : SampleInfo)
    (hinfo : (if id = 1 then some infoOfTwo else none) = some info) :
    ∀ index ∈ info.varIndices, index.2 < 2 := by
  split at hinfo
  · cases hinfo
    decide
  · cases hinfo

/-- Covariances over a second. -/
def oneSecondCov : StatisticsCruncher :=
  { StatisticsCruncher.oneSecondMean with
    statsType := .cov
    ninvars := 2
    sampleMap := fun id => if id = 1 then some infoOfTwo else none
    ninvars_pos := Nat.two_pos
    inBounds := inBounds_infoOfTwo }

/-- Two samples of a second, one without a value, and one of the next second. -/
def threeOfTwo : List ValueSample :=
  [⟨300000, 1, .float, [some 3, some 5]⟩, ⟨700000, 1, .float, [some 4, none]⟩,
    ⟨1700000, 1, .float, [some 1, some 2]⟩]

end Nidas.Dynld.CrossTerms
