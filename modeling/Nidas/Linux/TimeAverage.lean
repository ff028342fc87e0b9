import Mathlib.Data.List.SplitBy
import Mathlib.Algebra.Order.BigOperators.Group.List
import Nidas.Linux.ShortFilters

/-!
# What the time average filter outputs

The scans fall in intervals of `deltaTmsecs`, counted from midnight.  While the scans of an interval
come in, the filter holds its end, its number and the sums of its scans.  A scan that is not before
the end completes the interval.

At midnight this breaks.  The end of the last interval of a day is the end of the day, or beyond it,
and no time of the day is: the filter waits for it for ever.  As long as there is no midnight
between the scans the filter outputs the averages it should.
-/

namespace Nidas.Linux

open Lib

/-! ## What is expected -/

/-- Two scans, one after the other, are in the same interval. -/
def sameInterval (delta : ℤ) (scan next : Scan) : Bool :=
  timeOfDay scan.tt ≤ timeOfDay next.tt ∧ timeOfDay scan.tt / delta = timeOfDay next.tt / delta

/-- The intervals that scans have completed. -/
def completed (delta : ℤ) (scans : List Scan) : List (List Scan) :=
  (scans.splitBy (sameInterval delta)).dropLast

/-- Every `decimate`-th of some intervals, where the first has the number `k`. -/
def everyNth (decimate : ℤ) (k : ℕ) (groups : List (List Scan)) : List (List Scan) :=
  ((groups.zipIdx k).filter fun group => (group.2 : ℤ) % decimate = 0).map Prod.fst

/-- The sum of a channel. -/
def groupSum (skipFactor : ℤ) (group : List Scan) (vindex : ℤ) : ℤ :=
  (group.map fun scan => scan.channel skipFactor vindex).sum

namespace TimeavgFilter

/-- Filter some scans. -/
def filterScans (skipFactor : ℤ) :
    TimeavgFilter → List Scan → Except FilterError (List ShortSample)
  | _, [] => .ok []
  | this, scan :: rest =>
      match timeavgFilter skipFactor this scan with
      | .error e => .error e
      | .ok (output, next) =>
          match filterScans skipFactor next rest with
          | .error e => .error e
          | .ok outputs => .ok (output.toList ++ outputs)

/-- The sample is the average of the scans, at some time of the day. -/
structure Averages (this : TimeavgFilter) (skipFactor : ℤ) (sample : ShortSample)
    (group : List Scan) : Prop where
  data : List.Forall₂
    (fun value vindex => IsRounded value.toInt (groupSum skipFactor group vindex) group.length)
    sample.data this.vindices
  timetag_nonneg : 0 ≤ sample.timetag
  timetag_lt : sample.timetag < TMSECS_PER_DAY

/-- What is output are the averages of every `decimate`-th completed interval. -/
def AveragesIntervals (this : TimeavgFilter) (skipFactor : ℤ) (scans : List Scan) : Prop :=
  ∃ outputs, filterScans skipFactor this scans = .ok outputs ∧
    List.Forall₂ (this.Averages skipFactor) outputs
      (everyNth this.decimate 1 (completed this.deltaTmsecs scans))

/-! ## The interval that is being averaged -/

/-- The filter holds the interval of some scans, the last of them at the time `t`. -/
structure Holding (this : TimeavgFilter) (skipFactor : ℤ) (k : ℕ) (group : List Scan) (t : ℤ)
    (filter : TimeavgFilter) : Prop where
  decimate_eq : filter.decimate = this.decimate
  delta_eq : filter.deltaTmsecs = this.deltaTmsecs
  vindices_eq : filter.vindices = this.vindices
  t_nonneg : 0 ≤ t
  t_lt : t < TMSECS_PER_DAY
  endTime_eq : filter.endTime = (t / this.deltaTmsecs + 1) * this.deltaTmsecs
  nout_eq : filter.nout = k
  k_le : (k : ℤ) ≤ t / this.deltaTmsecs + 1
  nsum_eq : filter.nsum = group.length
  length_pos : 0 < group.length
  length_le : (group.length : ℤ) ≤ t % this.deltaTmsecs + 1
  sums_eq : filter.sums =
    this.vindices.map fun vindex => toInt32 (groupSum skipFactor group vindex)

theorem groupSum_append (skipFactor : ℤ) (group : List Scan) (scan : Scan) (vindex : ℤ) :
    groupSum skipFactor (group ++ [scan]) vindex =
      groupSum skipFactor group vindex + scan.channel skipFactor vindex := by
  simp [groupSum]

theorem groupSum_bounds (skipFactor : ℤ) (group : List Scan) (vindex : ℤ) :
    -32768 * group.length ≤ groupSum skipFactor group vindex ∧
      groupSum skipFactor group vindex ≤ 32767 * group.length := by
  induction group with
  | nil => simp [groupSum]
  | cons scan group ih =>
      have hvalue := toInt_bounds (scan.input (vindex * skipFactor))
      have hcons : groupSum skipFactor (scan :: group) vindex =
          scan.channel skipFactor vindex + groupSum skipFactor group vindex := by
        simp [groupSum]
      rw [hcons, Scan.channel, List.length_cons]
      push_cast
      omega

/-- The end of the interval that a time is in. -/
theorem end_bounds {delta t : ℤ} (hdelta : 0 < delta) :
    t < (t / delta + 1) * delta ∧ (t / delta + 1) * delta ≤ t + delta ∧
      (t / delta + 1) * delta = t + delta - t % delta := by
  have hquot := Int.mul_ediv_add_emod t delta
  have hrem := Int.emod_nonneg t (show delta ≠ 0 by omega)
  have hrem' := Int.emod_lt_of_pos t hdelta
  have hmul : (t / delta + 1) * delta = delta * (t / delta) + delta := by ring
  rw [hmul]
  omega

theorem ediv_lt_iff {delta t u : ℤ} (hdelta : 0 < delta) :
    u < (t / delta + 1) * delta ↔ u / delta ≤ t / delta := by
  rw [← Int.ediv_lt_iff_lt_mul hdelta]
  omega

/-- Rolling forward to the end of the interval that a time is in. -/
theorem rolled_eq {delta u : ℤ} (hdelta : 0 < delta) (hdelta' : delta ≤ 10000) (hu : 0 ≤ u)
    (hu' : u < TMSECS_PER_DAY) :
    toInt32 (u + delta - u.tmod delta) = (u / delta + 1) * delta := by
  obtain ⟨hend, hend', hroll⟩ := end_bounds (t := u) hdelta
  unfold TMSECS_PER_DAY at hu'
  rw [Int.tmod_eq_emod_of_nonneg hu, ← hroll, toInt32_of_range (by omega) (by omega)]

/-- What the configuration promises of the intervals. -/
structure Configured (this : TimeavgFilter) : Prop where
  delta_pos : 0 < this.deltaTmsecs
  delta_le : this.deltaTmsecs ≤ 10000
  decimate_pos : 0 < this.decimate
  decimate_lt : this.decimate < 2 ^ 31

variable {this filter : TimeavgFilter} {skipFactor : ℤ} {k : ℕ} {group : List Scan} {t u : ℤ}
  {scan : Scan}

/-- The first scan of an interval. -/
theorem holding_begin (hdecimate : filter.decimate = this.decimate)
    (hdelta : filter.deltaTmsecs = this.deltaTmsecs) (hvindices : filter.vindices = this.vindices)
    (hsums : filter.sums.length = this.vindices.length) (hu : 0 ≤ u) (hu' : u < TMSECS_PER_DAY)
    (hend : filter.nextEnd u = (u / this.deltaTmsecs + 1) * this.deltaTmsecs)
    (hnout : toUInt32 (filter.nout + 1) = k) (hk : (k : ℤ) ≤ u / this.deltaTmsecs + 1)
    (hpos : 0 < this.deltaTmsecs) :
    Holding this skipFactor k [scan] u ((filter.begin u).add skipFactor scan) := by
  have hzero : (filter.sums.map fun _ => (0 : ℤ)) = this.vindices.map fun _ => toInt32 0 := by
    rw [List.map_const', List.map_const', hsums]
    rfl
  have hrem := Int.emod_nonneg u (show this.deltaTmsecs ≠ 0 by omega)
  exact
    { decimate_eq := hdecimate
      delta_eq := hdelta
      vindices_eq := hvindices
      t_nonneg := hu
      t_lt := hu'
      endTime_eq := hend
      nout_eq := hnout
      k_le := hk
      nsum_eq := rfl
      length_pos := by simp
      length_le := by
        simp only [List.length_singleton]
        omega
      sums_eq := by
        simp only [add, begin, hvindices, hzero, groupSum]
        rw [addToSums_map (fun _ => 0)]
        simp }

namespace Holding

variable (hhold : Holding this skipFactor k group t filter) (hconf : Configured this)

include hhold hconf

/-- A scan in the interval. -/
theorem same (hu : t < u) (hu' : u < TMSECS_PER_DAY)
    (hsame : u / this.deltaTmsecs = t / this.deltaTmsecs) (htime : timeOfDay scan.tt = u) :
    timeavgFilter skipFactor filter scan = .ok (none, filter.add skipFactor scan) ∧
      Holding this skipFactor k (group ++ [scan]) u (filter.add skipFactor scan) := by
  have hdelta := hconf.delta_pos
  have hdelta' := hconf.delta_le
  have hbefore : ¬ u ≥ filter.endTime := by
    rw [hhold.endTime_eq, not_le, ediv_lt_iff hdelta]
    omega
  have hrem : t % this.deltaTmsecs < u % this.deltaTmsecs := by
    have htquot := Int.mul_ediv_add_emod t this.deltaTmsecs
    have huquot := Int.mul_ediv_add_emod u this.deltaTmsecs
    rw [hsame] at huquot
    omega
  have hlt := Int.emod_lt_of_pos u hdelta
  have hlen := hhold.length_le
  have hnsum : toInt32 (filter.nsum + 1) = (group ++ [scan]).length := by
    rw [hhold.nsum_eq, toInt32_of_range (by omega) (by omega)]
    simp
  constructor
  · simp only [timeavgFilter, htime, if_neg hbefore]
  · have ht := hhold.t_nonneg
    have hk := hhold.k_le
    exact
      { decimate_eq := hhold.decimate_eq
        delta_eq := hhold.delta_eq
        vindices_eq := hhold.vindices_eq
        t_nonneg := by omega
        t_lt := hu'
        endTime_eq := by
          rw [hsame]
          exact hhold.endTime_eq
        nout_eq := hhold.nout_eq
        k_le := by
          rw [hsame]
          exact hk
        nsum_eq := hnsum
        length_pos := by simp
        length_le := by
          simp only [List.length_append, List.length_singleton]
          push_cast
          omega
        sums_eq := by
          simp only [add, hhold.sums_eq, hhold.vindices_eq, addToSums_map, groupSum_append] }

/-- The end of the next interval, when there is no midnight before it. -/
theorem nextEnd_eq (hu' : u < TMSECS_PER_DAY)
    (hnext : t / this.deltaTmsecs < u / this.deltaTmsecs) :
    filter.nextEnd u = (u / this.deltaTmsecs + 1) * this.deltaTmsecs := by
  have hdelta := hconf.delta_pos
  have hdelta' := hconf.delta_le
  have ht := hhold.t_nonneg
  obtain ⟨hend, hend', -⟩ := end_bounds (t := t) hdelta
  have hle : (t / this.deltaTmsecs + 1) * this.deltaTmsecs ≤ u := by
    rw [← not_lt, ediv_lt_iff hdelta]
    omega
  have hsum : (t / this.deltaTmsecs + 1) * this.deltaTmsecs + this.deltaTmsecs =
      (t / this.deltaTmsecs + 1 + 1) * this.deltaTmsecs := by ring
  have hrolled := rolled_eq hdelta hdelta' (show 0 ≤ u by omega) hu'
  unfold TMSECS_PER_DAY at hu'
  have hadd : toInt32 ((t / this.deltaTmsecs + 1) * this.deltaTmsecs + this.deltaTmsecs) =
      (t / this.deltaTmsecs + 1) * this.deltaTmsecs + this.deltaTmsecs :=
    toInt32_of_range (by omega) (by omega)
  simp only [nextEnd, hhold.endTime_eq, hhold.delta_eq, hadd, hrolled]
  unfold TMSECS_PER_DAY
  split
  · next hmidnight =>
      rw [toInt32_of_range (by omega) (by omega), if_pos (by omega)]
  · split
    · rfl
    · next hwithin =>
        -- the time is in the interval after the one that is held
        have hone : u / this.deltaTmsecs ≤ t / this.deltaTmsecs + 1 := by
          rw [hsum, not_le, ← Int.ediv_lt_iff_lt_mul hdelta] at hwithin
          omega
        have hexact : u / this.deltaTmsecs = t / this.deltaTmsecs + 1 := by omega
        rw [hsum, hexact]

/-- The average of an interval that a scan completes. -/
theorem output_eq (hu' : u < TMSECS_PER_DAY)
    (hnext : t / this.deltaTmsecs < u / this.deltaTmsecs) :
    if (k : ℤ) % this.decimate = 0 then
      ∃ sample, filter.output = some sample ∧ this.Averages skipFactor sample group
    else filter.output = none := by
  have hdelta := hconf.delta_pos
  have hdelta' := hconf.delta_le
  have ht := hhold.t_nonneg
  have hpos := hhold.length_pos
  have hdecimate : toUInt32 filter.decimate = this.decimate := by
    have := hconf.decimate_pos
    have := hconf.decimate_lt
    rw [hhold.decimate_eq]
    exact toUInt32_of_range (by omega) (by omega)
  unfold output
  rw [hdecimate, hhold.nout_eq]
  split
  · next hdue =>
      have hlen := hhold.length_le
      have hrem := Int.emod_lt_of_pos t hdelta
      have hle : (t / this.deltaTmsecs + 1) * this.deltaTmsecs ≤ u := by
        rw [← not_lt, ediv_lt_iff hdelta]
        omega
      have hge : this.deltaTmsecs ≤ (t / this.deltaTmsecs + 1) * this.deltaTmsecs := by
        have hquot : 0 ≤ t / this.deltaTmsecs := Int.ediv_nonneg ht (by omega)
        calc this.deltaTmsecs = 1 * this.deltaTmsecs := (one_mul _).symm
          _ ≤ (t / this.deltaTmsecs + 1) * this.deltaTmsecs :=
              Int.mul_le_mul_of_nonneg_right (by omega) (by omega)
      have hhalf : this.deltaTmsecs.tdiv 2 = this.deltaTmsecs / 2 :=
        Int.tdiv_eq_ediv_of_nonneg (by omega)
      rw [if_pos ⟨hdue, by rw [hhold.nsum_eq]; omega⟩]
      refine ⟨_, rfl, ?_⟩
      have htout : toInt32 (filter.endTime - filter.deltaTmsecs.tdiv 2) =
          (t / this.deltaTmsecs + 1) * this.deltaTmsecs - this.deltaTmsecs / 2 := by
        unfold TMSECS_PER_DAY at hu'
        rw [hhold.endTime_eq, hhold.delta_eq, hhalf, toInt32_of_range (by omega) (by omega)]
      simp only [htout, if_neg (show ¬ (t / this.deltaTmsecs + 1) * this.deltaTmsecs -
        this.deltaTmsecs / 2 < 0 by omega)]
      refine ⟨?_, ?_, ?_⟩
      · simp only [averageSample, hhold.sums_eq, hhold.nsum_eq, List.map_map]
        rw [List.forall₂_map_left_iff, List.forall₂_same]
        intro vindex _
        obtain ⟨hlow, hhigh⟩ := groupSum_bounds skipFactor group vindex
        exact isRounded_divRoundClosest (by omega) (by omega) hlow hhigh
      · simp only [averageSample]
        omega
      · simp only [averageSample]
        omega
  · next hnot =>
      rw [if_neg fun hdue => hnot hdue.1]

/-- A scan of a later interval. -/
theorem next (hu' : u < TMSECS_PER_DAY) (hnext : t / this.deltaTmsecs < u / this.deltaTmsecs)
    (htime : timeOfDay scan.tt = u) :
    timeavgFilter skipFactor filter scan =
        .ok (filter.output, (filter.begin u).add skipFactor scan) ∧
      Holding this skipFactor (k + 1) [scan] u ((filter.begin u).add skipFactor scan) := by
  have hdelta := hconf.delta_pos
  have hdecimate := hconf.decimate_pos
  have ht := hhold.t_nonneg
  have hafter : u ≥ filter.endTime := by
    rw [hhold.endTime_eq, ge_iff_le, ← not_lt, ediv_lt_iff hdelta]
    omega
  have hu : 0 ≤ u := by
    by_contra hneg
    have := Int.ediv_neg_of_neg_of_pos (show u < 0 by omega) hdelta
    have := Int.ediv_nonneg ht hdelta.le
    omega
  have hk := hhold.k_le
  have hquot : u / this.deltaTmsecs ≤ u := Int.ediv_le_self _ hu
  constructor
  · have hok : ¬ (filter.decimate = 0 ∨ filter.deltaTmsecs = 0) := by
      rw [hhold.decimate_eq, hhold.delta_eq]
      omega
    simp only [timeavgFilter, htime, if_pos hafter, if_neg hok]
  · apply holding_begin hhold.decimate_eq hhold.delta_eq hhold.vindices_eq
    · rw [hhold.sums_eq, List.length_map]
    · exact hu
    · exact hu'
    · exact hhold.nextEnd_eq hconf hu' hnext
    · rw [hhold.nout_eq]
      unfold TMSECS_PER_DAY at hu'
      rw [toUInt32_of_range (by omega) (by omega)]
      push_cast
      rfl
    · push_cast
      omega
    · exact hdelta

end Holding

/-! ## Runs -/

theorem timeOfDay_bounds {tt : ℤ} (hlow : -TMSECS_PER_DAY ≤ tt) (hhigh : tt < 2 * TMSECS_PER_DAY) :
    0 ≤ timeOfDay tt ∧ timeOfDay tt < TMSECS_PER_DAY := by
  unfold timeOfDay
  unfold TMSECS_PER_DAY at *
  split
  · rw [toInt32_of_range (by omega) (by omega)]
    omega
  · split
    · rw [toInt32_of_range (by omega) (by omega)]
      omega
    · omega

theorem everyNth_cons (decimate : ℤ) (k : ℕ) (group : List Scan) (groups : List (List Scan)) :
    everyNth decimate k (group :: groups) =
      if (k : ℤ) % decimate = 0 then group :: everyNth decimate (k + 1) groups
      else everyNth decimate (k + 1) groups := by
  unfold everyNth
  rw [List.zipIdx_cons, List.filter_cons]
  split
  · next hdue =>
      rw [if_pos (by simpa using hdue), List.map_cons]
  · next hnot =>
      rw [if_neg (by simpa using hnot)]

/-- The scans of an interval, the last of them at the time `t`. -/
structure InInterval (delta : ℤ) (group : List Scan) (t : ℤ) : Prop where
  ne_nil : group ≠ []
  chain : group.IsChain fun scan next => sameInterval delta scan next = true
  last_eq : ∀ last ∈ group.getLast?, timeOfDay last.tt = t

theorem completed_eq_nil {delta : ℤ} (hin : InInterval delta group t) :
    completed delta group = [] := by
  unfold completed
  rw [List.splitBy_of_isChain hin.ne_nil hin.chain]
  rfl

/-- A scan of another interval completes the interval. -/
theorem completed_append {delta : ℤ} (hin : InInterval delta group t)
    (hother : t / delta ≠ timeOfDay scan.tt / delta) (rest : List Scan) :
    completed delta (group ++ scan :: rest) = group :: completed delta (scan :: rest) := by
  have hsplit : (group ++ scan :: rest).splitBy (sameInterval delta) =
      group.splitBy (sameInterval delta) ++ (scan :: rest).splitBy (sameInterval delta) := by
    apply List.splitBy_append_cons
    intro last hlast
    have htime := hin.last_eq last hlast
    simp [sameInterval, htime, hother]
  unfold completed
  rw [hsplit, List.splitBy_of_isChain hin.ne_nil hin.chain]
  exact List.dropLast_cons_of_ne_nil (List.splitBy_ne_nil.mpr (by simp))

theorem InInterval.append {delta : ℤ} (hin : InInterval delta group t)
    (hle : t ≤ timeOfDay scan.tt) (hsame : t / delta = timeOfDay scan.tt / delta) :
    InInterval delta (group ++ [scan]) (timeOfDay scan.tt) where
  ne_nil := by simp
  chain := by
    rw [List.isChain_append]
    refine ⟨hin.chain, by simp, ?_⟩
    intro last hlast next hnext
    have htime := hin.last_eq last hlast
    have hscan : next = scan := by simpa using hnext.symm
    rw [hscan]
    simp [sameInterval, htime, hle, hsame]
  last_eq := by simp

theorem InInterval.singleton (delta : ℤ) (scan : Scan) :
    InInterval delta [scan] (timeOfDay scan.tt) where
  ne_nil := by simp
  chain := by simp
  last_eq := by simp

/-- What is output from the scans to come, while an interval is held. -/
theorem filterScans_holding (hconf : Configured this) (rest : List Scan) (k : ℕ)
    (group : List Scan) (t : ℤ) (filter : TimeavgFilter)
    (hhold : Holding this skipFactor k group t filter)
    (hin : InInterval this.deltaTmsecs group t)
    (htimes : ∀ scan ∈ rest, timeOfDay scan.tt < TMSECS_PER_DAY)
    (hlater : ∀ scan ∈ rest, t < timeOfDay scan.tt)
    (hday : rest.Pairwise fun scan next => timeOfDay scan.tt < timeOfDay next.tt) :
    ∃ outputs, filterScans skipFactor filter rest = .ok outputs ∧
      List.Forall₂ (this.Averages skipFactor) outputs
        (everyNth this.decimate k (completed this.deltaTmsecs (group ++ rest))) := by
  induction rest generalizing k group t filter with
  | nil =>
      refine ⟨[], rfl, ?_⟩
      rw [List.append_nil, completed_eq_nil hin]
      exact .nil
  | cons scan rest ih =>
      obtain ⟨hfirst, hday⟩ := List.pairwise_cons.mp hday
      have hu : t < timeOfDay scan.tt := hlater scan (by simp)
      have hu' := htimes scan (by simp)
      have htimes : ∀ scan ∈ rest, timeOfDay scan.tt < TMSECS_PER_DAY :=
        fun next hmem => htimes next (by simp [hmem])
      have hquot : t / this.deltaTmsecs ≤ timeOfDay scan.tt / this.deltaTmsecs :=
        Int.ediv_le_ediv hconf.delta_pos hu.le
      rcases eq_or_lt_of_le hquot with hsame | hnext
      · -- the scan is in the interval
        obtain ⟨hstep, hheld⟩ := hhold.same hconf hu hu' hsame.symm rfl
        obtain ⟨outputs, hrun, haverage⟩ := ih k (group ++ [scan]) (timeOfDay scan.tt)
          (filter.add skipFactor scan) hheld (hin.append hu.le hsame) htimes hfirst hday
        refine ⟨outputs, ?_, ?_⟩
        · rw [filterScans, hstep]
          dsimp only
          rw [hrun]
          rfl
        · rw [List.append_assoc, List.singleton_append] at haverage
          exact haverage
      · -- the scan completes the interval
        obtain ⟨hstep, hheld⟩ := hhold.next hconf hu' hnext rfl
        obtain ⟨outputs, hrun, haverage⟩ := ih (k + 1) [scan] (timeOfDay scan.tt)
          ((filter.begin (timeOfDay scan.tt)).add skipFactor scan) hheld
          (InInterval.singleton _ scan) htimes hfirst hday
        have houtput := hhold.output_eq hconf hu' hnext
        refine ⟨filter.output.toList ++ outputs, ?_, ?_⟩
        · rw [filterScans, hstep]
          dsimp only
          rw [hrun]
        · rw [completed_append hin (by omega), everyNth_cons]
          rw [List.singleton_append] at haverage
          split at houtput
          · next hdue =>
              obtain ⟨sample, hsome, hsample⟩ := houtput
              rw [hsome, if_pos hdue]
              exact .cons hsample haverage
          · next hnot =>
              rw [houtput, if_neg hnot]
              exact haverage

/-- A filter as it is configured has an interval of at most a second. -/
theorem of_timeavgConfig {kmalloc : ℕ → Bool} {fdata : ShortFilterData} {rate nbcfg : ℤ}
    (hconfig : timeavgConfig kmalloc fdata rate nbcfg = .ok this) :
    this.deltaTmsecs ≤ 10000 ∧ this.decimate < 2 ^ 31 ∧ this.endTime = -2 ^ 31 ∧ this.nout = 0 ∧
      this.nsum = 0 ∧ this.sums.length = this.vindices.length := by
  unfold timeavgConfig at hconfig
  split_ifs at hconfig
  cases hconfig
  refine ⟨?_, toInt32_lt _, rfl, rfl, rfl, by simp⟩
  exact Int.tdiv_le_self _ (by decide)

/-- **The time average filter** outputs the averages of every `decimate`-th completed interval, as
long as there is no midnight between the scans. -/
theorem averagesIntervals_of_increasing {kmalloc : ℕ → Bool} {fdata : ShortFilterData}
    {rate nbcfg : ℤ} (hconfig : timeavgConfig kmalloc fdata rate nbcfg = .ok this)
    (hdelta : 0 < this.deltaTmsecs) (hdecimate : 0 < this.decimate) (skipFactor : ℤ)
    {scans : List Scan}
    (htags : ∀ scan ∈ scans, -TMSECS_PER_DAY ≤ scan.tt ∧ scan.tt < 2 * TMSECS_PER_DAY)
    (hday : scans.Pairwise fun scan next => timeOfDay scan.tt < timeOfDay next.tt) :
    this.AveragesIntervals skipFactor scans := by
  obtain ⟨hdelta', hdecimate', hend, hnout, hnsum, hsums⟩ := of_timeavgConfig hconfig
  cases scans with
  | nil => exact ⟨[], rfl, .nil⟩
  | cons scan rest =>
      obtain ⟨hfirst, hday⟩ := List.pairwise_cons.mp hday
      have htimes : ∀ next ∈ scan :: rest, 0 ≤ timeOfDay next.tt ∧
          timeOfDay next.tt < TMSECS_PER_DAY :=
        fun next hmem => timeOfDay_bounds (htags next hmem).1 (htags next hmem).2
      obtain ⟨hu, hu'⟩ := htimes scan (by simp)
      have houtput : this.output = none := by
        unfold output
        rw [hnsum, if_neg (by omega)]
      have hnextEnd : this.nextEnd (timeOfDay scan.tt) =
          (timeOfDay scan.tt / this.deltaTmsecs + 1) * this.deltaTmsecs := by
        have hadd : toInt32 (-2 ^ 31 + this.deltaTmsecs) = -2 ^ 31 + this.deltaTmsecs :=
          toInt32_of_range (by omega) (by omega)
        have hnot : ¬ (-2 ^ 31 + this.deltaTmsecs : ℤ) ≥ TMSECS_PER_DAY := by
          unfold TMSECS_PER_DAY
          omega
        simp only [nextEnd, hend, hadd, if_neg hnot]
        rw [if_pos (by omega)]
        exact rolled_eq hdelta hdelta' hu hu'
      have hstep : timeavgFilter skipFactor this scan =
          .ok (none, (this.begin (timeOfDay scan.tt)).add skipFactor scan) := by
        have hafter : timeOfDay scan.tt ≥ this.endTime := by omega
        have hok : ¬ (this.decimate = 0 ∨ this.deltaTmsecs = 0) := by omega
        simp only [timeavgFilter, if_pos hafter, if_neg hok, houtput]
      have hhold : Holding this skipFactor 1 [scan] (timeOfDay scan.tt)
          ((this.begin (timeOfDay scan.tt)).add skipFactor scan) := by
        have hquot : 0 ≤ timeOfDay scan.tt / this.deltaTmsecs := Int.ediv_nonneg hu hdelta.le
        refine holding_begin rfl rfl rfl hsums hu hu' hnextEnd ?_ (by push_cast; omega) hdelta
        rw [hnout]
        rfl
      obtain ⟨outputs, hrun, haverage⟩ := filterScans_holding
        ⟨hdelta, hdelta', hdecimate, hdecimate'⟩ rest 1 [scan] (timeOfDay scan.tt) _ hhold
        (InInterval.singleton _ scan) (fun next hmem => (htimes next (by simp [hmem])).2) hfirst
        hday
      refine ⟨outputs, ?_, haverage⟩
      rw [filterScans, hstep]
      dsimp only
      rw [hrun]
      rfl

/-- Averages over a tenth of a second, all of them output, of one channel. -/
def tenths : TimeavgFilter :=
  { decimate := 1, deltaTmsecs := 1000, endTime := -2 ^ 31, nout := 0, vindices := [0], sums := [0]
    nsum := 0, sampleIndex := 1 }

theorem timeavgConfig_tenths :
    timeavgConfig (fun _ => true)
      { channels := [0], inputRate := 20, outputRate := 10, sampleIndex := 1 } 10 4 =
    .ok tenths := by
  decide

/-- Scans of a value, every 50 milliseconds from a tag on. -/
def scansFrom (tt : ℤ) (values : List Int16) : List Scan :=
  values.zipIdx.map fun value => ⟨(tt + 500 * value.2) % TMSECS_PER_DAY, fun _ => value.1⟩

theorem averagesIntervals_tenths :
    filterScans 1 tenths (scansFrom 0 [3, 4, 5, 6, 7]) ≠ .ok [] ∧
      tenths.AveragesIntervals 1 (scansFrom 0 [3, 4, 5, 6, 7]) := by
  refine ⟨by decide +kernel, ?_⟩
  exact averagesIntervals_of_increasing timeavgConfig_tenths (by decide) (by decide) 1
    (by decide +kernel) (by decide +kernel)

/-- Scans around midnight: three intervals are completed, and only one is output. -/
theorem not_averagesIntervals_midnight :
    ¬ tenths.AveragesIntervals 1 (scansFrom 863998000 [3, 4, 5, 6, 7, 8, 9]) := by
  rintro ⟨outputs, hrun, haverage⟩
  have hlength : outputs.length =
      (everyNth 1 1 (completed 1000 (scansFrom 863998000 [3, 4, 5, 6, 7, 8, 9]))).length :=
    haverage.length_eq
  have hone : filterScans 1 tenths (scansFrom 863998000 [3, 4, 5, 6, 7, 8, 9]) =
      .ok [averageSample 863998500 1 [7] 2] := by
    decide +kernel
  rw [hone] at hrun
  cases hrun
  revert hlength
  decide +kernel

end TimeavgFilter

end Nidas.Linux
