import Mathlib.Data.List.Count
import Mathlib.Data.Rat.Floor
import Nidas.Core.ValueSample
import Nidas.Lib.Answers
import Nidas.Lib.Buckets
import Nidas.Util.UTime

/-!
# Periods of statistics

A `StatisticsCruncher` adds up products of the values of its variables over a period, and computes
the statistics when the first sample of a later period arrives, or at a flush.  This file is about
the periods: which samples are added, and to which output.

In place of the sums there is the list `added` of the samples whose values are in them.  The sums
of all types of statistics are made from it, and are set to zero when it is emptied.
-/

namespace Nidas.Dynld

open Lib Util Core

/-! ## The cruncher -/

/-- `StatisticsCruncher::statisticsType` -/
inductive StatsType where
  | unknown
  | minimum
  | maximum
  | mean
  | var
  | cov
  | flux
  | rflux
  | sflux
  | trivar
  | prunedTrivar
  | windDir
  | sum
  deriving DecidableEq, Repr

/-- `_crossTerms`, as it is set in the constructor -/
def StatsType.crossTerms : StatsType → Bool
  | .cov | .flux | .rflux | .sflux | .trivar | .prunedTrivar | .windDir => true
  | _ => false

/-- `sampleInfo`: the input and output indices of the variables, and the index of the weights, which
is `UINT_MAX` if there are none. -/
structure SampleInfo where
  varIndices : List (ℕ × ℕ)
  weightsIndex : ℕ := 2 ^ 32 - 1
  deriving DecidableEq, Repr

/-- The members of a `StatisticsCruncher` that are used for the periods.  The output indices are
those of input variables. -/
structure StatisticsCruncher where
  periodUsecs : ℤ
  fillGaps : Bool := false
  startTime : ℤ := longLongMin
  endTime : ℤ := longLongMax
  statsType : StatsType
  ninvars : ℕ
  sampleMap : ℕ → Option SampleInfo
  startTime_ge : longLongMin ≤ startTime := by decide
  ninvars_pos : 0 < ninvars
  inBounds : ∀ id info, sampleMap id = some info → ∀ index ∈ info.varIndices, index.2 < ninvars
  tout : ℤ := longLongMin
  nSamples : ℕ → ℕ := fun _ => 0
  added : List ValueSample := []

/-- An output sample: its time tag and the samples that it is computed from. -/
structure StatisticsOutput where
  timeTag : ℤ
  samples : List ValueSample
  deriving DecidableEq, Repr

namespace StatisticsCruncher

/-- The members of `_nSamples` that are incremented for a sample that gets to the `switch` in
`receive`. -/
def counters (cruncher : StatisticsCruncher) (info : SampleInfo) (samp : ValueSample) : List ℕ :=
  match cruncher.statsType with
  | .unknown => []
  | .minimum | .maximum | .mean | .sum | .var =>
      info.varIndices.filterMap fun index => (samp.value? index.1).map fun _ => index.2
  | .windDir =>
      if ((info.varIndices[0]?).bind fun index => samp.value? index.1).isSome &&
          ((info.varIndices[1]?).bind fun index => samp.value? index.1).isSome then
        [0]
      else []
  | _ => [0]

/-- `nonNANs`: the weight of the sample, or for cross terms the number of its values. -/
def nonNANs (cruncher : StatisticsCruncher) (info : SampleInfo) (samp : ValueSample) : ℕ :=
  if info.weightsIndex < samp.data.length then
    (((samp.value? info.weightsIndex).map Int.floor).getD 0 % 2 ^ 32).toNat
  else if cruncher.statsType.crossTerms then
    info.varIndices.countP fun index => (samp.value? index.1).isSome
  else 0

/-- The output of `computeStats` -/
def output (cruncher : StatisticsCruncher) : StatisticsOutput where
  timeTag := cruncher.tout - cruncher.periodUsecs.tdiv 2
  samples := cruncher.added

/-- `StatisticsCruncher::zeroStats` -/
def zeroStats (cruncher : StatisticsCruncher) : StatisticsCruncher :=
  { cruncher with nSamples := fun _ => 0, added := [] }

/-- `StatisticsCruncher::computeStats` -/
def computeStats (cruncher : StatisticsCruncher) : StatisticsCruncher × List StatisticsOutput :=
  if cruncher.tout = longLongMin then (cruncher, []) else (cruncher.zeroStats, [cruncher.output])

/-- The end of the period of the start time. -/
def startTout (cruncher : StatisticsCruncher) : ℤ :=
  cruncher.startTime + cruncher.periodUsecs - cruncher.startTime.tmod cruncher.periodUsecs

/-- The first period is that of the start time if gaps are filled. -/
def started (cruncher : StatisticsCruncher) : StatisticsCruncher :=
  if cruncher.tout = longLongMin ∧ cruncher.startTime ≠ longLongMin ∧ cruncher.fillGaps then
    { cruncher with tout := cruncher.startTout }
  else cruncher

/-- The body of the loop in `receive`, behind the test of the end time -/
def iterate (cruncher : StatisticsCruncher) (tt : ℤ) :
    StatisticsCruncher × List StatisticsOutput :=
  let begun := cruncher.started
  ({ begun.computeStats.1 with
      tout :=
        if ¬ begun.fillGaps ∨ begun.tout = longLongMin then
          tt - tt.tmod begun.periodUsecs + begun.periodUsecs
        else begun.tout + begun.periodUsecs },
    begun.computeStats.2)

/-- The loop in `receive`, with whether the sample is not behind the end time. -/
def advance (tt : ℤ) : ℕ → StatisticsCruncher →
    StatisticsCruncher × List StatisticsOutput × Bool
  | 0, cruncher => (cruncher, [], true)
  | fuel + 1, cruncher =>
      if tt > cruncher.tout then
        if tt > cruncher.endTime then (cruncher, [], false)
        else
          let (next, outs) := cruncher.iterate tt
          let (last, more, inTime) := advance tt fuel next
          (last, outs ++ more, inTime)
      else (cruncher, [], true)

/-- More iterations than there are. -/
def fuel (cruncher : StatisticsCruncher) (tt : ℤ) : ℕ :=
  (tt - cruncher.tout).toNat + (tt - cruncher.startTime).toNat + 2

/-- The values of a sample are added. -/
def add (cruncher : StatisticsCruncher) (info : SampleInfo) (samp : ValueSample) :
    StatisticsCruncher :=
  let counters := cruncher.counters info samp
  { cruncher with
    nSamples := fun i => (cruncher.nSamples i + counters.count i) % 2 ^ 32
    added := if counters = [] then cruncher.added else cruncher.added ++ [samp] }

/-- `StatisticsCruncher::receive`, with the samples that are distributed and the value that it
returns. -/
def receive (cruncher : StatisticsCruncher) (samp : ValueSample) :
    StatisticsCruncher × List StatisticsOutput × Bool :=
  match cruncher.sampleMap samp.id with
  | none => (cruncher, [], false)
  | some info =>
      let (next, outs, inTime) := advance samp.timeTag (cruncher.fuel samp.timeTag) cruncher
      if !inTime then (next, outs, false)
      else if samp.timeTag < next.tout - next.periodUsecs then (next, outs, false)
      else if next.statsType.crossTerms ∧ next.nonNANs info samp < next.ninvars then
        (next, outs, false)
      else (next.add info samp, outs, true)

/-- `StatisticsCruncher::flush` -/
def flush (cruncher : StatisticsCruncher) : StatisticsCruncher × List StatisticsOutput :=
  if cruncher.tout ≠ longLongMin ∧
      ((List.range cruncher.ninvars).any fun i => cruncher.nSamples i > 0) then
    ({ cruncher.computeStats.1 with tout := cruncher.tout + cruncher.periodUsecs },
      cruncher.computeStats.2)
  else (cruncher, [])

/-- All outputs for a sequence of samples that is ended by a flush. -/
def outputs (cruncher : StatisticsCruncher) (samples : List ValueSample) :
    List StatisticsOutput :=
  (answers receive cruncher samples).flatMap Prod.fst ++
    (afterCalls receive cruncher samples).flush.2

/-! ## The loop -/

section Loop

variable {cruncher : StatisticsCruncher} {tt : ℤ}

/-- The counters that a sample of a known id increments. -/
def countersOf (cruncher : StatisticsCruncher) (samp : ValueSample) : List ℕ :=
  match cruncher.sampleMap samp.id with
  | none => []
  | some info => cruncher.counters info samp

/-- What is not changed by a run. -/
structure SameConfig (cruncher other : StatisticsCruncher) : Prop where
  period : other.periodUsecs = cruncher.periodUsecs
  fillGaps : other.fillGaps = cruncher.fillGaps
  startTime : other.startTime = cruncher.startTime
  endTime : other.endTime = cruncher.endTime
  statsType : other.statsType = cruncher.statsType
  ninvars : other.ninvars = cruncher.ninvars
  sampleMap : other.sampleMap = cruncher.sampleMap

theorem SameConfig.refl (cruncher : StatisticsCruncher) : SameConfig cruncher cruncher :=
  ⟨rfl, rfl, rfl, rfl, rfl, rfl, rfl⟩

theorem SameConfig.trans {cruncher other third : StatisticsCruncher}
    (hfirst : SameConfig cruncher other) (hsecond : SameConfig other third) :
    SameConfig cruncher third :=
  ⟨hsecond.period.trans hfirst.period, hsecond.fillGaps.trans hfirst.fillGaps,
    hsecond.startTime.trans hfirst.startTime, hsecond.endTime.trans hfirst.endTime,
    hsecond.statsType.trans hfirst.statsType, hsecond.ninvars.trans hfirst.ninvars,
    hsecond.sampleMap.trans hfirst.sampleMap⟩

theorem SameConfig.countersOf {cruncher other : StatisticsCruncher}
    (hsame : SameConfig cruncher other) (samp : ValueSample) :
    other.countersOf samp = cruncher.countersOf samp := by
  unfold StatisticsCruncher.countersOf counters
  rw [hsame.sampleMap, hsame.statsType]

/-- The samples of some outputs, each with the time tag of its output. -/
def placements (outs : List StatisticsOutput) : List (ValueSample × ℤ) :=
  outs.flatMap fun out => out.samples.map fun samp => (samp, out.timeTag)

/-- The samples that are not in an output yet, with the time tag of the one they will be in. -/
def pending (cruncher : StatisticsCruncher) : List (ValueSample × ℤ) :=
  cruncher.added.map fun samp => (samp, cruncher.output.timeTag)

/-- The members of a cruncher between two calls. -/
structure Sound (cruncher : StatisticsCruncher) : Prop where
  period_pos : 0 < cruncher.periodUsecs
  tout : cruncher.tout = longLongMin ∧ cruncher.added = [] ∨
    longLongMin < cruncher.tout ∧ cruncher.periodUsecs ∣ cruncher.tout
  counted : ∀ i, cruncher.nSamples i =
    (cruncher.added.flatMap cruncher.countersOf).count i % 2 ^ 32

/-- What some iterations of the loop do: every pending sample is still pending or is in an output,
with the time tag that it was meant for. -/
structure Advanced (cruncher next : StatisticsCruncher) (outs : List StatisticsOutput) : Prop where
  config : SameConfig cruncher next
  sound : Sound next
  placements : placements outs ++ next.pending = cruncher.pending

theorem placements_append (first rest : List StatisticsOutput) :
    placements (first ++ rest) = placements first ++ placements rest :=
  List.flatMap_append

theorem Advanced.refl (hsound : cruncher.Sound) : Advanced cruncher cruncher [] :=
  ⟨SameConfig.refl _, hsound, rfl⟩

theorem Advanced.trans {cruncher next last : StatisticsCruncher}
    {outs more : List StatisticsOutput} (hfirst : Advanced cruncher next outs)
    (hsecond : Advanced next last more) : Advanced cruncher last (outs ++ more) := by
  refine ⟨hfirst.config.trans hsecond.config, hsecond.sound, ?_⟩
  rw [placements_append, List.append_assoc, hsecond.placements, hfirst.placements]

/-- A new period, when nothing is pending. -/
theorem Advanced.moved (hsound : cruncher.Sound) (hnone : cruncher.added = []) (tout : ℤ)
    (htout : longLongMin < tout) (hdvd : cruncher.periodUsecs ∣ tout) :
    Advanced cruncher { cruncher with tout := tout } [] := by
  refine ⟨⟨rfl, rfl, rfl, rfl, rfl, rfl, rfl⟩,
    ⟨hsound.period_pos, Or.inr ⟨htout, hdvd⟩, hsound.counted⟩, ?_⟩
  unfold pending
  rw [hnone]
  rfl

/-- The statistics are computed, and a new period starts. -/
theorem Advanced.computed (hsound : cruncher.Sound) (tout : ℤ)
    (htout : longLongMin < tout) (hdvd : cruncher.periodUsecs ∣ tout) :
    Advanced cruncher { cruncher.zeroStats with tout := tout } [cruncher.output] := by
  refine ⟨⟨rfl, rfl, rfl, rfl, rfl, rfl, rfl⟩,
    ⟨hsound.period_pos, Or.inr ⟨htout, hdvd⟩, fun _ => rfl⟩, ?_⟩
  unfold StatisticsCruncher.placements pending
  rw [List.flatMap_singleton]
  exact List.append_nil _

/-- Whether the periods of a gap are stepped through: there is one to begin with. -/
def Steps (cruncher : StatisticsCruncher) : Prop :=
  cruncher.fillGaps = true ∧ (cruncher.tout = longLongMin → cruncher.startTime ≠ longLongMin)

theorem dvd_startTout : cruncher.periodUsecs ∣ cruncher.startTout := by
  have hstart : cruncher.startTout = cruncher.periodUsecs *
      cruncher.startTime.tdiv cruncher.periodUsecs + cruncher.periodUsecs := by
    have := Int.tmod_add_mul_tdiv cruncher.startTime cruncher.periodUsecs
    unfold startTout
    omega
  rw [hstart]
  exact dvd_add (dvd_mul_right _ _) (dvd_refl _)

theorem startTime_lt_startTout (hperiod : 0 < cruncher.periodUsecs) :
    cruncher.startTime < cruncher.startTout := by
  have := Int.tmod_lt_of_pos cruncher.startTime hperiod
  unfold startTout
  omega

/-- Without steps the period is that of the sample. -/
theorem iterate_of_not_steps (hsteps : ¬ cruncher.Steps) :
    cruncher.iterate tt =
      ({ cruncher.computeStats.1 with
          tout := tt - tt.tmod cruncher.periodUsecs + cruncher.periodUsecs },
        cruncher.computeStats.2) := by
  have hstarted : cruncher.started = cruncher := by
    apply if_neg
    rintro ⟨htout, hne, hfill⟩
    exact hsteps ⟨hfill, fun _ => hne⟩
  have hnew : ¬ cruncher.fillGaps = true ∨ cruncher.tout = longLongMin := by
    by_contra hnot
    rw [not_or, not_not] at hnot
    exact hsteps ⟨hnot.1, fun hmin => absurd hmin hnot.2⟩
  unfold iterate
  rw [hstarted]
  dsimp only
  rw [if_pos hnew]

/-- A step, from the period that is set or from that of the start time. -/
theorem iterate_of_steps (tt : ℤ) (hfill : cruncher.fillGaps = true)
    (htout : cruncher.started.tout ≠ longLongMin) :
    cruncher.iterate tt =
      ({ cruncher.started.zeroStats with
          tout := cruncher.started.tout + cruncher.periodUsecs },
        [cruncher.started.output]) := by
  have hconfig : cruncher.started.fillGaps = true ∧
      cruncher.started.periodUsecs = cruncher.periodUsecs := by
    unfold started
    split
    · exact ⟨hfill, rfl⟩
    · exact ⟨hfill, rfl⟩
  have hkept : ¬ (¬ cruncher.started.fillGaps = true ∨ cruncher.started.tout = longLongMin) := by
    rintro (hnot | hmin)
    · exact hnot hconfig.1
    · exact htout hmin
  unfold iterate computeStats
  dsimp only
  rw [if_neg htout, if_neg hkept, hconfig.2]

theorem advance_of_le {n : ℕ} (hle : tt ≤ cruncher.tout) :
    advance tt n cruncher = (cruncher, [], true) := by
  cases n with
  | zero => rfl
  | succ n => rw [advance, if_neg (by omega)]

theorem advance_of_lt {n : ℕ} (hlt : cruncher.tout < tt) (hend : tt ≤ cruncher.endTime) :
    advance tt (n + 1) cruncher =
      ((advance tt n (cruncher.iterate tt).1).1,
        (cruncher.iterate tt).2 ++ (advance tt n (cruncher.iterate tt).1).2.1,
        (advance tt n (cruncher.iterate tt).1).2.2) := by
  rw [advance, if_pos hlt, if_neg (by omega)]

/-- The loop, once a period is set and gaps are filled: it is left at the first period that does
not end before the sample. -/
theorem exists_advance_steps (n : ℕ) (cruncher : StatisticsCruncher) (hsound : cruncher.Sound)
    (hfill : cruncher.fillGaps = true) (hset : longLongMin < cruncher.tout)
    (hend : tt ≤ cruncher.endTime) (hfuel : (tt - cruncher.tout).toNat ≤ n) :
    ∃ next outs, advance tt n cruncher = (next, outs, true) ∧ Advanced cruncher next outs ∧
      tt ≤ next.tout ∧ cruncher.tout ≤ next.tout ∧
      (next.tout = cruncher.tout ∨ next.tout - cruncher.periodUsecs < tt) := by
  induction n generalizing cruncher with
  | zero =>
      have hle : tt ≤ cruncher.tout := by omega
      exact ⟨cruncher, [], rfl, Advanced.refl hsound, hle, le_refl _, Or.inl rfl⟩
  | succ n ih =>
      by_cases hle : tt ≤ cruncher.tout
      · exact ⟨cruncher, [], advance_of_le hle, Advanced.refl hsound, hle, le_refl _, Or.inl rfl⟩
      · have hstarted : cruncher.started = cruncher := if_neg fun h => by
          have := h.1
          omega
        have hperiod := hsound.period_pos
        have hdvd : cruncher.periodUsecs ∣ cruncher.tout := by
          rcases hsound.tout with ⟨hmin, -⟩ | ⟨-, hdvd⟩
          · omega
          · exact hdvd
        have hiterate := iterate_of_steps tt hfill (by
          rw [hstarted]
          omega)
        rw [hstarted] at hiterate
        have hcomputed := Advanced.computed hsound (cruncher.tout + cruncher.periodUsecs)
          (by omega) (dvd_add hdvd (dvd_refl _))
        obtain ⟨next, outs, hadvance, hadvanced, hreached, habove, hfirst⟩ :=
          ih { cruncher.zeroStats with tout := cruncher.tout + cruncher.periodUsecs }
            hcomputed.sound hfill (by dsimp only; omega) hend (by dsimp only; omega)
        refine ⟨next, cruncher.output :: outs, ?_, hcomputed.trans hadvanced, hreached, ?_, ?_⟩
        · rw [advance_of_lt (by omega) hend, hiterate]
          dsimp only
          rw [hadvance]
          rfl
        · dsimp only at habove
          omega
        · right
          rcases hfirst with hsame | hlt
          · rw [hsame]
            dsimp only
            omega
          · exact hlt

/-- A sample at the end of a period is taken to that period: it is the current one, or the loop
steps up to it. -/
def GoesEarly (cruncher : StatisticsCruncher) (tt : ℤ) : Prop :=
  cruncher.periodUsecs ∣ tt ∧
    (cruncher.tout = tt ∨ cruncher.Steps ∧ cruncher.tout < tt ∧
      (cruncher.tout = longLongMin → cruncher.startTout + cruncher.periodUsecs ≤ tt))

/-- The end of the period of a sample that is not before it. -/
def RightTout (cruncher : StatisticsCruncher) (tt tout : ℤ) : Prop :=
  tout - cruncher.periodUsecs ≤ tt →
    (cruncher.GoesEarly tt → tout = tt) ∧
    (¬ cruncher.GoesEarly tt → tout = periodEnd cruncher.periodUsecs tt)

theorem rightTout_of_le (hsound : cruncher.Sound) (hpos : 0 < tt) (hle : tt ≤ cruncher.tout) :
    cruncher.RightTout tt cruncher.tout := by
  intro hstart
  have hdvd : cruncher.periodUsecs ∣ cruncher.tout := by
    rcases hsound.tout with ⟨hmin, -⟩ | ⟨-, hdvd⟩
    · unfold longLongMin at hmin
      omega
    · exact hdvd
  constructor
  · rintro ⟨-, hsame | ⟨-, hlt, -⟩⟩
    · exact hsame
    · omega
  · intro hnot
    have hne : tt ≠ cruncher.tout := by
      rintro rfl
      exact hnot ⟨hdvd, Or.inl rfl⟩
    exact (eq_periodEnd_iff hsound.period_pos hdvd tt).mpr ⟨hstart, by omega⟩

theorem rightTout_of_not_steps (hlt : cruncher.tout < tt) (hsteps : ¬ cruncher.Steps) :
    cruncher.RightTout tt (periodEnd cruncher.periodUsecs tt) := by
  intro _
  refine ⟨?_, fun _ => rfl⟩
  rintro ⟨-, hsame | ⟨hyes, -⟩⟩
  · omega
  · exact absurd hyes hsteps

theorem rightTout_of_steps (hsound : cruncher.Sound) (hlt : cruncher.tout < tt)
    (hsteps : cruncher.Steps) {base tout : ℤ}
    (hbase : base = if cruncher.tout = longLongMin then cruncher.startTout else cruncher.tout)
    (hdvd : cruncher.periodUsecs ∣ tout) (hle : tt ≤ tout)
    (habove : base + cruncher.periodUsecs ≤ tout)
    (hfirst : tout = base + cruncher.periodUsecs ∨ tout - cruncher.periodUsecs < tt) :
    cruncher.RightTout tt tout := by
  intro hstart
  have hperiod := hsound.period_pos
  constructor
  · rintro ⟨hmultiple, hsame | ⟨-, -, hafter⟩⟩
    · omega
    · -- the sample is not before the first period that is reached
      have hreached : base + cruncher.periodUsecs ≤ tt := by
        by_cases hmin : cruncher.tout = longLongMin
        · rw [if_pos hmin] at hbase
          rw [hbase]
          exact hafter hmin
        · rw [if_neg hmin] at hbase
          have hset : cruncher.periodUsecs ∣ cruncher.tout := by
            rcases hsound.tout with ⟨heq, -⟩ | ⟨-, hset⟩
            · exact absurd heq hmin
            · exact hset
          rw [hbase]
          by_contra hnot
          have := eq_of_dvd_of_lt hmultiple hset (by omega) (by omega)
          omega
      rcases hfirst with hsame | hclose
      · omega
      · exact eq_of_dvd_of_lt hdvd hmultiple (by omega) (by omega)
  · intro hnot
    refine (eq_periodEnd_iff hperiod hdvd tt).mpr ⟨hstart, lt_of_le_of_ne hle ?_⟩
    rintro rfl
    refine hnot ⟨hdvd, Or.inr ⟨hsteps, hlt, ?_⟩⟩
    intro hmin
    rw [if_pos hmin] at hbase
    rw [← hbase]
    exact habove

/-- The statistics are computed if there are any, and the period is that of the sample. -/
theorem advanced_iterate_of_not_steps (hsound : cruncher.Sound) (hpos : 0 < tt)
    (hsteps : ¬ cruncher.Steps) :
    Advanced cruncher (cruncher.iterate tt).1 (cruncher.iterate tt).2 ∧
      (cruncher.iterate tt).1.tout = periodEnd cruncher.periodUsecs tt := by
  have hperiod := hsound.period_pos
  have hend : tt - tt.tmod cruncher.periodUsecs + cruncher.periodUsecs =
      periodEnd cruncher.periodUsecs tt := by
    rw [Int.tmod_eq_emod_of_nonneg hpos.le]
    rfl
  have hmin : longLongMin < periodEnd cruncher.periodUsecs tt := by
    have := lt_periodEnd hperiod tt
    unfold longLongMin
    omega
  rw [iterate_of_not_steps hsteps, hend]
  refine ⟨?_, rfl⟩
  unfold computeStats
  split
  · next hunset =>
      have hnone : cruncher.added = [] := by
        rcases hsound.tout with ⟨-, hnone⟩ | ⟨hset, -⟩
        · exact hnone
        · omega
      exact Advanced.moved hsound hnone _ hmin dvd_periodEnd
  · exact Advanced.computed hsound _ hmin dvd_periodEnd

/-- The period to begin with. -/
theorem advanced_started (hsound : cruncher.Sound) (hsteps : cruncher.Steps) :
    Advanced cruncher cruncher.started [] ∧ longLongMin < cruncher.started.tout ∧
      cruncher.started.tout =
        if cruncher.tout = longLongMin then cruncher.startTout else cruncher.tout := by
  unfold started
  rcases hsound.tout with ⟨hunset, hnone⟩ | ⟨hset, -⟩
  · have hstart := hsteps.2 hunset
    have hge := cruncher.startTime_ge
    have hlt := startTime_lt_startTout hsound.period_pos
    have hset : longLongMin < cruncher.startTout := by omega
    rw [if_pos ⟨hunset, hstart, hsteps.1⟩, if_pos hunset]
    exact ⟨Advanced.moved hsound hnone _ hset dvd_startTout, hset, rfl⟩
  · rw [if_neg (by omega), if_neg (by omega)]
    exact ⟨Advanced.refl hsound, hset, rfl⟩

/-- **The loop of a call.** -/
theorem exists_advance (hsound : cruncher.Sound) (hpos : 0 < tt)
    (hend : cruncher.tout < tt → tt ≤ cruncher.endTime) :
    ∃ next outs, advance tt (cruncher.fuel tt) cruncher = (next, outs, true) ∧
      Advanced cruncher next outs ∧ tt ≤ next.tout ∧ cruncher.RightTout tt next.tout := by
  by_cases hle : tt ≤ cruncher.tout
  · exact ⟨cruncher, [], advance_of_le hle, Advanced.refl hsound, hle,
      rightTout_of_le hsound hpos hle⟩
  · replace hend := hend (by omega)
    have hlt : cruncher.tout < tt := by omega
    have hfuel : cruncher.fuel tt =
        ((tt - cruncher.tout).toNat + (tt - cruncher.startTime).toNat + 1) + 1 := rfl
    rw [hfuel, advance_of_lt hlt hend]
    by_cases hsteps : cruncher.Steps
    · obtain ⟨hstarted, hset, hbase⟩ := advanced_started hsound hsteps
      have hperiod := hsound.period_pos
      have hsame := hstarted.config.period
      have hdvd : cruncher.periodUsecs ∣ cruncher.started.tout := by
        rcases hstarted.sound.tout with ⟨hmin, -⟩ | ⟨-, hdvd⟩
        · omega
        · rw [← hsame]
          exact hdvd
      have hcomputed := Advanced.computed hstarted.sound
        (cruncher.started.tout + cruncher.periodUsecs) (by omega) (by
          rw [hsame]
          exact dvd_add hdvd (dvd_refl _))
      have hmany : (tt - (cruncher.started.tout + cruncher.periodUsecs)).toNat ≤
          (tt - cruncher.tout).toNat + (tt - cruncher.startTime).toNat + 1 := by
        have hstart := startTime_lt_startTout hperiod
        split at hbase
        · omega
        · omega
      obtain ⟨next, outs, hadvance, hadvanced, hreached, habove, hfirst⟩ :=
        exists_advance_steps _ _ hcomputed.sound (hstarted.config.fillGaps.trans hsteps.1)
          (by dsimp only; omega) (hend.trans_eq hstarted.config.endTime.symm) hmany
      refine ⟨next, _, ?_, hstarted.trans (hcomputed.trans hadvanced), hreached, ?_⟩
      · rw [iterate_of_steps tt hsteps.1 hset.ne', hadvance]
        rfl
      · have htout : cruncher.periodUsecs ∣ next.tout := by
          rcases hadvanced.sound.tout with ⟨hmin, -⟩ | ⟨-, htout⟩
          · dsimp only at habove
            omega
          · have hperiods : next.periodUsecs = cruncher.periodUsecs :=
              hadvanced.config.period.trans hsame
            rw [← hperiods]
            exact htout
        refine rightTout_of_steps hsound hlt hsteps hbase htout hreached habove ?_
        rcases hfirst with hstay | hclose
        · exact Or.inl hstay
        · right
          rw [← hsame]
          exact hclose
    · obtain ⟨hadvanced, htout⟩ := advanced_iterate_of_not_steps hsound hpos hsteps
      have hreached : tt ≤ (cruncher.iterate tt).1.tout := by
        rw [htout]
        exact (lt_periodEnd hsound.period_pos tt).le
      refine ⟨(cruncher.iterate tt).1, (cruncher.iterate tt).2, ?_, hadvanced, hreached, ?_⟩
      · rw [advance_of_le hreached, List.append_nil]
      · rw [htout]
        exact rightTout_of_not_steps hlt hsteps

end Loop

end StatisticsCruncher

end Nidas.Dynld
