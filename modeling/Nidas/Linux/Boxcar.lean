import Mathlib.Algebra.BigOperators.Intervals
import Nidas.Linux.ShortFilters

/-!
# What the boxcar filter outputs

The scans come in groups of `decimate`, and within a group the count of the filter is the number of
scans so far.  So there is an output in every group, at its `npts`-th scan, if there is such
a scan, and what is summed until then are the first scans of the group.

Three things can be wrong with it.  `npts` is not compared with `decimate`, and if it is not one of
the numbers up to `decimate` nothing is ever output.  The sums are integers of 32 bits, and with
more than 65535 scans of large values the rounded sum does not fit.  And the correction of the time
tag at midnight adds a second where it should add a day.
-/

namespace Nidas.Linux

open Lib

/-! ## What is expected -/

/-- The time in the middle, from the first time of day on to the last. -/
def midpoint (first last : ℤ) : ℤ :=
  (first + (last - first) % TMSECS_PER_DAY / 2) % TMSECS_PER_DAY

namespace BoxcarFilter

variable (this : BoxcarFilter) (skipFactor : ℤ) (scans : ℕ → Scan)

/-- The filter after the first `n` scans. -/
def after : ℕ → BoxcarFilter
  | 0 => this
  | n + 1 => (boxcarFilter skipFactor (after n) (scans n)).2

/-- What is output at the scan `n`. -/
def outputAt (n : ℕ) : Option ShortSample :=
  (boxcarFilter skipFactor (this.after skipFactor scans n) (scans n)).1

/-- The sum of a channel over `n` scans from `start` on. -/
def channelSum (start n : ℕ) (vindex : ℤ) : ℤ :=
  ∑ i ∈ Finset.range n, (scans (start + i)).channel skipFactor vindex

/-- The sample is the average of the first `npts` scans from `start` on. -/
structure Averages (start : ℕ) (sample : ShortSample) : Prop where
  data : List.Forall₂
    (fun value vindex =>
      IsRounded value.toInt (channelSum skipFactor scans start this.npts.toNat vindex) this.npts)
    sample.data this.vindices
  timetag : sample.timetag =
    midpoint (scans start).tt (scans (start + (this.npts.toNat - 1))).tt

/-- There is exactly one output for every `decimate` scans, the average of their first. -/
def Regular : Prop :=
  ∃ d : ℕ, 0 < d ∧ this.decimate = d ∧
    ∀ g : ℕ, ∃ i < d, ∃ sample, this.outputAt skipFactor scans (g * d + i) = some sample ∧
      this.Averages skipFactor scans (g * d) sample ∧
      ∀ j < d, j ≠ i → this.outputAt skipFactor scans (g * d + j) = none

/-! ## Counting -/

variable {this skipFactor scans}

theorem after_succ (n : ℕ) : this.after skipFactor scans (n + 1) =
    (boxcarFilter skipFactor (this.after skipFactor scans n) (scans n)).2 := rfl

/-- `i` scans of a group have been counted. -/
structure Counting (this : BoxcarFilter) (i : ℕ) (filter : BoxcarFilter) : Prop where
  decimate_eq : filter.decimate = this.decimate
  vindices_eq : filter.vindices = this.vindices
  npts_eq : filter.npts = this.npts
  count_eq : filter.count = i

variable {filter : BoxcarFilter} {d i : ℕ} {scan : Scan}

@[simp] theorem restart_decimate : filter.restart.decimate = filter.decimate := by
  unfold restart
  split <;> rfl

@[simp] theorem restart_vindices : filter.restart.vindices = filter.vindices := by
  unfold restart
  split <;> rfl

@[simp] theorem restart_npts : filter.restart.npts = filter.npts := by
  unfold restart
  split <;> rfl

@[simp] theorem restart_sums : filter.restart.sums = filter.sums := by
  unfold restart
  split <;> rfl

@[simp] theorem restart_tsave : filter.restart.tsave = filter.tsave := by
  unfold restart
  split <;> rfl

theorem restart_count :
    filter.restart.count = if filter.count = filter.decimate then 0 else filter.count := by
  unfold restart
  split <;> rfl

/-- The fields that the scans do not change, and the count. -/
theorem fixed_boxcarFilter (skipFactor : ℤ) (filter : BoxcarFilter) (scan : Scan) :
    (boxcarFilter skipFactor filter scan).2.decimate = filter.decimate ∧
      (boxcarFilter skipFactor filter scan).2.vindices = filter.vindices ∧
      (boxcarFilter skipFactor filter scan).2.npts = filter.npts ∧
      (boxcarFilter skipFactor filter scan).2.count =
        if toInt32 (filter.count + 1) = filter.decimate then 0 else toInt32 (filter.count + 1) := by
  simp only [boxcarFilter]
  split
  · split
    · simp [restart_count]
    · simp [restart_count]
  · simp [restart_count]

namespace Counting

variable (hcount : Counting this i filter) (hd : this.decimate = d) (hint : d < 2 ^ 31)

include hcount hint

theorem toInt32_count (hi : i < d) : toInt32 (filter.count + 1) = (i + 1 : ℕ) := by
  rw [hcount.count_eq, toInt32_of_range (by omega) (by omega)]
  push_cast
  rfl

/-- Only the scan with the number `npts` has an output. -/
theorem output_eq_none (hi : i < d) (hnpts : this.npts ≠ (i + 1 : ℕ)) :
    (boxcarFilter skipFactor filter scan).1 = none := by
  simp only [boxcarFilter, hcount.toInt32_count hint hi, hcount.npts_eq]
  split
  · rw [if_neg (Ne.symm hnpts)]
  · rfl

include hd

/-- A scan within the group. -/
theorem next (hi : i + 1 < d) : Counting this (i + 1) (boxcarFilter skipFactor filter scan).2 := by
  obtain ⟨hdecimate, hvindices, hnpts, hnew⟩ := fixed_boxcarFilter skipFactor filter scan
  refine ⟨hdecimate.trans hcount.decimate_eq, hvindices.trans hcount.vindices_eq,
    hnpts.trans hcount.npts_eq, ?_⟩
  rw [hnew, hcount.toInt32_count hint (by omega), hcount.decimate_eq, hd]
  rw [if_neg (by omega)]

/-- The last scan of a group. -/
theorem last (hi : i + 1 = d) : Counting this 0 (boxcarFilter skipFactor filter scan).2 := by
  obtain ⟨hdecimate, hvindices, hnpts, hnew⟩ := fixed_boxcarFilter skipFactor filter scan
  refine ⟨hdecimate.trans hcount.decimate_eq, hvindices.trans hcount.vindices_eq,
    hnpts.trans hcount.npts_eq, ?_⟩
  rw [hnew, hcount.toInt32_count hint (by omega), hcount.decimate_eq, hd]
  rw [if_pos (by omega)]
  rfl

end Counting

variable (skipFactor scans) in
/-- The count starts again with every group, whatever `npts` is. -/
theorem counting_after (hd : this.decimate = d) (hint : d < 2 ^ 31) (hpos : 0 < d)
    (hzero : this.count = 0) (g : ℕ) :
    ∀ i < d, Counting this i (this.after skipFactor scans (g * d + i)) := by
  have hgroup : ∀ g, Counting this 0 (this.after skipFactor scans (g * d)) →
      ∀ i < d, Counting this i (this.after skipFactor scans (g * d + i)) := by
    intro g hstart i
    induction i with
    | zero => exact fun _ => hstart
    | succ i ih => exact fun hi => (ih (by omega)).next hd hint hi
  induction g with
  | zero =>
      apply hgroup
      rw [zero_mul]
      exact ⟨rfl, rfl, rfl, by simpa [after] using hzero⟩
  | succ g ih =>
      apply hgroup
      have hend : (g + 1) * d = g * d + (d - 1) + 1 := by
        rw [Nat.add_one_mul]
        omega
      rw [hend, after_succ]
      exact (ih (d - 1) (by omega)).last hd hint (by omega)

/-! ## Summing -/

theorem channelSum_succ (start n : ℕ) (vindex : ℤ) :
    channelSum skipFactor scans start (n + 1) vindex =
      channelSum skipFactor scans start n vindex +
        (scans (start + n)).channel skipFactor vindex :=
  Finset.sum_range_succ _ n

/-- The sums are those of the first `i` scans from `start` on, and the time tag is saved. -/
structure Summing (this : BoxcarFilter) (skipFactor : ℤ) (scans : ℕ → Scan) (start i : ℕ)
    (filter : BoxcarFilter) : Prop extends Counting this i filter where
  sums_eq : filter.sums = this.vindices.map fun vindex =>
    if i < this.npts then toInt32 (channelSum skipFactor scans start i vindex) else 0
  tsave_eq : 0 < i → filter.tsave = (scans start).tt

namespace Summing

variable {start : ℕ} (hsum : Summing this skipFactor scans start i filter)
  (hd : this.decimate = d) (hint : d < 2 ^ 31)

include hsum

/-- The tag that is saved with the scan. -/
theorem saved_eq :
    (if ((i + 1 : ℕ) : ℤ) = 1 then (scans (start + i)).tt else filter.tsave) =
      (scans start).tt := by
  split
  · next hone =>
      have hzero : i = 0 := by omega
      rw [hzero, add_zero]
  · next hmore => exact hsum.tsave_eq (by omega)

/-- The sums with the scan. -/
theorem addToSums_eq (hi : (i : ℤ) < this.npts) :
    addToSums filter.sums filter.vindices skipFactor (scans (start + i)) =
      this.vindices.map fun vindex =>
        toInt32 (channelSum skipFactor scans start (i + 1) vindex) := by
  have hsums : filter.sums =
      this.vindices.map fun vindex => toInt32 (channelSum skipFactor scans start i vindex) := by
    rw [hsum.sums_eq]
    simp only [if_pos hi]
  rw [hsums, hsum.vindices_eq, addToSums_map]
  simp only [channelSum_succ]

include hint

/-- What the scan leaves of the sums and the saved tag. -/
theorem sums_boxcarFilter (hi : i < d) :
    (boxcarFilter skipFactor filter (scans (start + i))).2.sums =
        (this.vindices.map fun vindex =>
          if (i + 1 : ℕ) < this.npts then
            toInt32 (channelSum skipFactor scans start (i + 1) vindex)
          else 0) ∧
      (this.npts ≥ 1 →
        (boxcarFilter skipFactor filter (scans (start + i))).2.tsave = (scans start).tt) := by
  have hnew := hsum.toCounting.toInt32_count hint hi
  simp only [boxcarFilter, hnew, hsum.npts_eq]
  by_cases hle : ((i + 1 : ℕ) : ℤ) ≤ this.npts
  · have hadd := hsum.addToSums_eq (by omega)
    rw [if_pos hle]
    by_cases heq : ((i + 1 : ℕ) : ℤ) = this.npts
    · rw [if_pos heq]
      simp only [restart_sums, restart_tsave]
      refine ⟨?_, fun _ => hsum.saved_eq⟩
      rw [hadd, ← heq]
      simp only [List.map_map, lt_irrefl, if_false]
      rfl
    · rw [if_neg heq]
      simp only [restart_sums, restart_tsave]
      refine ⟨?_, fun _ => hsum.saved_eq⟩
      rw [hadd]
      have hlt : ((i + 1 : ℕ) : ℤ) < this.npts := by omega
      simp only [if_pos hlt]
  · rw [if_neg hle]
    simp only [restart_sums, restart_tsave]
    have hnot : ¬ ((i + 1 : ℕ) : ℤ) < this.npts := by omega
    have hnot' : ¬ (i : ℤ) < this.npts := by omega
    refine ⟨?_, fun hone => hsum.tsave_eq (by omega)⟩
    rw [hsum.sums_eq]
    simp only [if_neg hnot, if_neg hnot']

/-- The sample of a group. -/
theorem output_eq_some (hi : i < d) (hnpts : this.npts = (i + 1 : ℕ)) :
    ∃ id, (boxcarFilter skipFactor filter (scans (start + i))).1 =
      some (averageSample
        (toInt32 ((scans start).tt + (tdiff (scans start).tt (scans (start + i)).tt).tdiv 2)) id
        (this.vindices.map fun vindex =>
          toInt32 (channelSum skipFactor scans start (i + 1) vindex)) this.npts) := by
  have hnew := hsum.toCounting.toInt32_count hint hi
  have hadd := hsum.addToSums_eq (by omega)
  refine ⟨filter.sampleIndex, ?_⟩
  simp only [boxcarFilter, hnew, hsum.npts_eq, hnpts, le_refl, if_true, hsum.saved_eq, hadd]

include hd

theorem next (hone : this.npts ≥ 1) (hi : i + 1 < d) :
    Summing this skipFactor scans start (i + 1)
      (boxcarFilter skipFactor filter (scans (start + i))).2 := by
  obtain ⟨hsums, htsave⟩ := hsum.sums_boxcarFilter hint (by omega)
  exact ⟨hsum.toCounting.next hd hint hi, hsums, fun _ => htsave hone⟩

theorem last (hle : this.npts ≤ d) (hi : i + 1 = d) :
    Summing this skipFactor scans (start + d) 0
      (boxcarFilter skipFactor filter (scans (start + i))).2 := by
  obtain ⟨hsums, -⟩ := hsum.sums_boxcarFilter hint (by omega)
  refine ⟨hsum.toCounting.last hd hint hi, ?_, fun hzero => absurd hzero (by omega)⟩
  have hnot : ¬ ((i + 1 : ℕ) : ℤ) < this.npts := by omega
  have hzero : toInt32 0 = 0 := by decide
  rw [hsums]
  simp only [if_neg hnot]
  simp [channelSum, hzero]

end Summing

variable (skipFactor scans) in
/-- In every group the first scans are summed. -/
theorem summing_after (hd : this.decimate = d) (hint : d < 2 ^ 31) (hpos : 0 < d)
    (hzero : this.count = 0) (hsums : this.sums = this.vindices.map fun _ => 0)
    (hone : this.npts ≥ 1) (hle : this.npts ≤ d) (g : ℕ) :
    ∀ i < d, Summing this skipFactor scans (g * d) i
      (this.after skipFactor scans (g * d + i)) := by
  have hgroup : ∀ g, Summing this skipFactor scans (g * d) 0 (this.after skipFactor scans (g * d)) →
      ∀ i < d, Summing this skipFactor scans (g * d) i
        (this.after skipFactor scans (g * d + i)) := by
    intro g hstart i
    induction i with
    | zero => exact fun _ => hstart
    | succ i ih => exact fun hi => (ih (by omega)).next hd hint hone hi
  induction g with
  | zero =>
      apply hgroup
      rw [zero_mul]
      refine ⟨⟨rfl, rfl, rfl, by simpa [after] using hzero⟩, ?_,
        fun hmore => absurd hmore (by omega)⟩
      have hzero32 : toInt32 0 = 0 := by decide
      simp [after, channelSum, hsums, hzero32]
  | succ g ih =>
      apply hgroup
      have hend : (g + 1) * d = g * d + (d - 1) + 1 := by
        rw [Nat.add_one_mul]
        omega
      have hnext := (ih (d - 1) (by omega)).last hd hint hle (by omega)
      rw [hend, after_succ]
      have hstart : g * d + (d - 1) + 1 = g * d + d := by omega
      rw [hstart]
      exact hnext

/-! ## The values -/

variable (skipFactor scans) in
theorem channelSum_bounds (start n : ℕ) (vindex : ℤ) :
    -32768 * n ≤ channelSum skipFactor scans start n vindex ∧
      channelSum skipFactor scans start n vindex ≤ 32767 * n := by
  induction n with
  | zero => simp [channelSum]
  | succ n ih =>
      have hvalue := toInt_bounds ((scans (start + n)).input (vindex * skipFactor))
      rw [channelSum_succ, Scan.channel]
      push_cast
      omega

end BoxcarFilter

/-- With more values, all as low as they can be, the rounded sum overflows. -/
theorem not_isRounded_divRoundClosest {npts : ℤ} (hmin : 65536 ≤ npts) :
    ¬ IsRounded (Int16.ofInt (divRoundClosest (toInt32 (-32768 * npts)) npts)).toInt
      (-32768 * npts) npts := by
  intro hround
  -- only the value itself is close enough to the mean
  have hvalue : (Int16.ofInt (divRoundClosest (toInt32 (-32768 * npts)) npts)).toInt = -32768 := by
    generalize (Int16.ofInt (divRoundClosest (toInt32 (-32768 * npts)) npts)).toInt = value
      at hround ⊢
    have hfactor : npts * value - -32768 * npts = npts * (value + 32768) := by ring
    unfold IsRounded at hround
    rw [hfactor, abs_mul, abs_of_pos (a := npts) (by omega)] at hround
    by_contra hne
    have hone : 1 ≤ |value + 32768| := Int.one_le_abs (by omega)
    have hmul : npts * 1 ≤ npts * |value + 32768| := Int.mul_le_mul_of_nonneg_left hone (by omega)
    omega
  obtain ⟨stored, hlow, hhigh, hquot⟩ : ∃ stored : ℤ, -2 ^ 31 ≤ stored ∧ stored < 2 ^ 31 ∧
      divRoundClosest (toInt32 (-32768 * npts)) npts = stored.tdiv npts := by
    unfold divRoundClosest
    split
    · exact ⟨_, le_toInt32 _, toInt32_lt _, rfl⟩
    · exact ⟨_, le_toInt32 _, toInt32_lt _, rfl⟩
  -- which an integer of 32 bits does not give, but for one number of values
  have hexact : npts = 65536 := by
    rw [hquot, Int16.toInt_ofInt, tdiv_eq_ite] at hvalue
    unfold Int.bmod at hvalue
    split at hvalue
    · next hnonneg =>
        have htop : stored / npts < 32768 := Int.ediv_lt_of_lt_mul (by omega) (by omega)
        have hbottom : 0 ≤ stored / npts := Int.ediv_nonneg hnonneg (by omega)
        simp only [Nat.cast_ofNat] at hvalue
        omega
    · next hneg =>
        have htop : -stored / npts < 32769 := Int.ediv_lt_of_lt_mul (by omega) (by omega)
        have hbottom : 0 ≤ -stored / npts := Int.ediv_nonneg (by omega) (by omega)
        have hquot : -stored / npts = 32768 := by
          simp only [Nat.cast_ofNat] at hvalue
          omega
        have hle := Int.mul_ediv_self_le (x := -stored) (k := npts) (by omega)
        rw [hquot] at hle
        omega
  rw [hexact] at hvalue
  revert hvalue
  decide

/-- The tag is the time in the middle exactly if midnight is not between the scans. -/
theorem timetag_eq_midpoint_iff {first last : ℤ} (hfirst : 0 ≤ first ∧ first < TMSECS_PER_DAY)
    (hlast : 0 ≤ last ∧ last < TMSECS_PER_DAY) :
    toInt32 (first + (BoxcarFilter.tdiff first last).tdiv 2) = midpoint first last ↔
      first ≤ last := by
  have hsec : (-TMSECS_PER_SEC).tdiv 2 = -5000 := by decide
  have hmsec : (-MSECS_PER_SEC).tdiv 2 = -500 := by decide
  obtain ⟨hfirst, hfirst'⟩ := hfirst
  obtain ⟨hlast, hlast'⟩ := hlast
  simp only [BoxcarFilter.tdiff, hsec, hmsec, midpoint, tdiv_eq_ite]
  unfold TMSECS_PER_DAY TMSECS_PER_SEC MSECS_PER_SEC at *
  have hdiff : toInt32 (last - first) = last - first := toInt32_of_range (by omega) (by omega)
  rw [hdiff]
  have htag : ∀ diff : ℤ, -864000000 < diff → diff < 864000000 →
      toInt32 (first + if 0 ≤ diff then diff / 2 else -(-diff / 2)) =
        first + if 0 ≤ diff then diff / 2 else -(-diff / 2) := by
    intro diff hlow hhigh
    apply toInt32_of_range
    · split <;> omega
    · split <;> omega
  constructor
  · intro heq
    by_contra hmidnight
    have hneg : last - first < 0 := by omega
    have hplus : ∀ plus : ℤ, 0 ≤ plus → plus ≤ 10000 →
        toInt32 (last - first + plus) = last - first + plus :=
      fun plus hlow hhigh => toInt32_of_range (by omega) (by omega)
    rw [if_pos hneg, hplus 10000 (by omega) (by omega), hplus 1000 (by omega) (by omega)] at heq
    split at heq
    · rw [htag _ (by omega) (by omega)] at heq
      split at heq <;> omega
    · split at heq
      · rw [htag _ (by omega) (by omega)] at heq
        split at heq <;> omega
      · rw [htag _ (by omega) (by omega)] at heq
        split at heq <;> omega
  · intro hle
    have hnonneg : ¬ last - first < 0 := by omega
    rw [if_neg hnonneg, htag _ (by omega) (by omega)]
    split <;> omega

/-! ## The outputs -/

namespace BoxcarFilter

variable {kmalloc : ℕ → Bool} {fdata : ShortFilterData} {npts nbcfg : ℤ} {this : BoxcarFilter}
  {skipFactor : ℤ} {scans : ℕ → Scan}

/-- What a filter is after its configuration. -/
theorem of_boxcarConfig (hconfig : boxcarConfig kmalloc fdata npts nbcfg = .ok this) :
    this.decimate < 2 ^ 31 ∧ this.vindices = fdata.channels ∧
      this.sums = (this.vindices.map fun _ => 0) ∧ this.npts = npts ∧ this.count = 0 := by
  unfold boxcarConfig at hconfig
  split_ifs at hconfig
  cases hconfig
  exact ⟨toInt32_lt _, rfl, rfl, rfl, rfl⟩

/-- The sample of the group of scans from `start` on. -/
def groupSample (this : BoxcarFilter) (skipFactor : ℤ) (scans : ℕ → Scan) (start : ℕ) (id : Int16) :
    ShortSample :=
  averageSample
    (toInt32 ((scans start).tt + (tdiff (scans start).tt
      (scans (start + (this.npts.toNat - 1))).tt).tdiv 2)) id
    (this.vindices.map fun vindex =>
      toInt32 (channelSum skipFactor scans start this.npts.toNat vindex)) this.npts

variable (skipFactor scans) in
/-- **There is one output in a group**, at its `npts`-th scan. -/
theorem output_group (hconfig : boxcarConfig kmalloc fdata npts nbcfg = .ok this) {d : ℕ}
    (hpos : 0 < d) (hd : this.decimate = d) (hone : 1 ≤ this.npts) (hle : this.npts ≤ d) (g : ℕ) :
    (∃ id, this.outputAt skipFactor scans (g * d + (this.npts.toNat - 1)) =
      some (this.groupSample skipFactor scans (g * d) id)) ∧
    ∀ j < d, j ≠ this.npts.toNat - 1 → this.outputAt skipFactor scans (g * d + j) = none := by
  obtain ⟨hint, -, hsums, -, hzero⟩ := of_boxcarConfig hconfig
  have hint : d < 2 ^ 31 := by omega
  have hgroup := summing_after skipFactor scans hd hint hpos hzero hsums hone hle g
  constructor
  · have hsum := hgroup (this.npts.toNat - 1) (by omega)
    have hlast : this.npts.toNat - 1 + 1 = this.npts.toNat := by omega
    have hout := hsum.output_eq_some hint (by omega) (by omega)
    rw [hlast] at hout
    exact hout
  · intro j hj hne
    exact (hgroup j hj).toCounting.output_eq_none hint hj (by omega)

/-- The number of averaged scans is one of those of a group. -/
theorem npts_bounds (hconfig : boxcarConfig kmalloc fdata npts nbcfg = .ok this) {d : ℕ}
    (hpos : 0 < d) (hd : this.decimate = d)
    (hout : ∃ i < d, this.outputAt skipFactor scans i ≠ none) :
    1 ≤ this.npts ∧ this.npts ≤ d := by
  obtain ⟨hint, -, -, -, hzero⟩ := of_boxcarConfig hconfig
  obtain ⟨i, hi, hsome⟩ := hout
  by_contra hnot
  have hcount := counting_after skipFactor scans hd (by omega) hpos hzero 0 i hi
  rw [zero_mul, zero_add] at hcount
  exact hsome (hcount.output_eq_none (d := d) (by omega) hi (by omega))

/-- If there is one output in a group and it is the average, the sample of the group is. -/
theorem Regular.averages_groupSample (hconfig : boxcarConfig kmalloc fdata npts nbcfg = .ok this)
    (hregular : this.Regular skipFactor scans) (g : ℕ) :
    1 ≤ this.npts ∧ this.npts ≤ this.decimate ∧
      ∃ id, this.Averages skipFactor scans (g * this.decimate.toNat)
        (this.groupSample skipFactor scans (g * this.decimate.toNat) id) := by
  obtain ⟨d, hpos, hd, hgroups⟩ := hregular
  obtain ⟨hone, hle⟩ : 1 ≤ this.npts ∧ this.npts ≤ d := by
    obtain ⟨i, hi, sample, hout, -⟩ := hgroups 0
    rw [zero_mul, zero_add] at hout
    exact npts_bounds hconfig hpos hd ⟨i, hi, by rw [hout]; simp⟩
  obtain ⟨i, hi, sample, hout, haverage, -⟩ := hgroups g
  obtain ⟨⟨id, hsome⟩, hnone⟩ := output_group skipFactor scans hconfig hpos hd hone hle g
  have hidx : i = this.npts.toNat - 1 := by
    by_contra hne
    rw [hnone i hi hne] at hout
    cases hout
  rw [hidx, hsome] at hout
  have hdnat : this.decimate.toNat = d := by omega
  refine ⟨hone, by omega, id, ?_⟩
  rw [hdnat, Option.some.inj hout]
  exact haverage

/-- The values are the rounded means if there are not too many scans. -/
theorem forall₂_groupSample (hone : 1 ≤ this.npts)
    (hmax : this.vindices = [] ∨ this.npts ≤ 65535) (start : ℕ) (id : Int16) :
    List.Forall₂
      (fun value vindex =>
        IsRounded value.toInt (channelSum skipFactor scans start this.npts.toNat vindex) this.npts)
      (this.groupSample skipFactor scans start id).data this.vindices := by
  simp only [groupSample, averageSample, List.map_map]
  rw [List.forall₂_map_left_iff, List.forall₂_same]
  intro vindex hmem
  have hmax : this.npts ≤ 65535 := by
    rcases hmax with hnil | hmax
    · rw [hnil] at hmem
      cases hmem
    · exact hmax
  obtain ⟨hlow, hhigh⟩ := channelSum_bounds skipFactor scans start this.npts.toNat vindex
  exact isRounded_divRoundClosest hone hmax (by omega) (by omega)

/-- With too many scans they are not, when the values are as low as they can be. -/
theorem npts_le_of_forall₂ {tags : ℕ → ℤ} (hmem : this.vindices ≠ []) {start : ℕ} {id : Int16}
    (hdata : List.Forall₂
      (fun value vindex => IsRounded value.toInt
        (channelSum skipFactor (fun n => ⟨tags n, fun _ => -32768⟩) start this.npts.toNat vindex)
        this.npts)
      (this.groupSample skipFactor (fun n => ⟨tags n, fun _ => -32768⟩) start id).data
      this.vindices) : this.npts ≤ 65535 := by
  by_contra hmany
  obtain ⟨vindex, hvindex⟩ := List.exists_mem_of_ne_nil _ hmem
  simp only [groupSample, averageSample, List.map_map] at hdata
  rw [List.forall₂_map_left_iff, List.forall₂_same] at hdata
  have hround := hdata vindex hvindex
  have hlowest : (-32768 : Int16).toInt = -32768 := by decide
  have hsum : channelSum skipFactor (fun n => ⟨tags n, fun _ => -32768⟩) start this.npts.toNat
      vindex = -32768 * this.npts := by
    simp only [channelSum, Scan.channel, hlowest, Finset.sum_const, Finset.card_range,
      nsmul_eq_mul]
    rw [mul_comm]
    congr 1
    exact Int.toNat_of_nonneg (by omega)
  dsimp only [Function.comp] at hround
  rw [hsum] at hround
  exact not_isRounded_divRoundClosest (by omega) hround

/-- **The boxcar filter averages** the first `npts` of every `decimate` scans, whatever their
values, exactly if `npts` is between one and `decimate`, not more than 65535, and midnight does not
fall between the scans that are averaged. -/
theorem boxcar_regular_iff (hconfig : boxcarConfig kmalloc fdata npts nbcfg = .ok this)
    (skipFactor : ℤ) {tags : ℕ → ℤ} (htags : ∀ n, 0 ≤ tags n ∧ tags n < TMSECS_PER_DAY) :
    (∀ input : ℕ → ℤ → Int16, this.Regular skipFactor fun n => ⟨tags n, input n⟩) ↔
      1 ≤ npts ∧ npts ≤ this.decimate ∧ (fdata.channels = [] ∨ npts ≤ 65535) ∧
        ∀ g : ℕ, tags (g * this.decimate.toNat) ≤
          tags (g * this.decimate.toNat + (npts.toNat - 1)) := by
  obtain ⟨-, hchannels, -, hnpts, -⟩ := of_boxcarConfig hconfig
  rw [← hchannels, ← hnpts]
  constructor
  · intro hall
    obtain ⟨hone, hle, -⟩ := (hall fun _ _ => 0).averages_groupSample hconfig 0
    refine ⟨hone, hle, ?_, ?_⟩
    · by_cases hnil : this.vindices = []
      · exact .inl hnil
      · obtain ⟨-, -, id, hdata, -⟩ := (hall fun _ _ => -32768).averages_groupSample hconfig 0
        exact .inr (npts_le_of_forall₂ hnil hdata)
    · intro g
      obtain ⟨-, -, id, -, htag⟩ := (hall fun _ _ => 0).averages_groupSample hconfig g
      exact (timetag_eq_midpoint_iff (htags _) (htags _)).mp htag
  · rintro ⟨hone, hle, hmax, horder⟩ input
    obtain ⟨d, hd⟩ : ∃ d : ℕ, this.decimate = d := ⟨this.decimate.toNat, by omega⟩
    have hdnat : this.decimate.toNat = d := by omega
    rw [hdnat] at horder
    refine ⟨d, by omega, hd, ?_⟩
    intro g
    obtain ⟨⟨id, hsome⟩, hnone⟩ := output_group skipFactor (fun n => ⟨tags n, input n⟩) hconfig
      (by omega) hd hone (by omega) g
    refine ⟨this.npts.toNat - 1, by omega, _, hsome, ⟨?_, ?_⟩, hnone⟩
    · exact forall₂_groupSample hone hmax _ _
    · exact (timetag_eq_midpoint_iff (htags _) (htags _)).mpr (horder g)

/-- A filter for 1000 scans and 100 samples a second, of two channels. -/
def hundredHertz : ShortFilterData :=
  { channels := [0, 1], inputRate := 1000, outputRate := 100, sampleIndex := 1 }

/-- The average of four of ten scans. -/
def fourOfTen : BoxcarFilter :=
  { decimate := 10, vindices := [0, 1], sums := [0, 0], npts := 4, count := 0, tsave := 0
    sampleIndex := 1 }

theorem boxcarConfig_hundredHertz :
    boxcarConfig (fun _ => true) hundredHertz 4 4 = .ok fourOfTen := by
  decide

theorem boxcar_regular_hundredHertz :
    fourOfTen.Regular 1 fun n =>
      ⟨10 * n % TMSECS_PER_DAY, fun vindex => Int16.ofInt (n + vindex)⟩ := by
  have htags : ∀ n : ℕ, 0 ≤ (10 * n : ℤ) % TMSECS_PER_DAY ∧
      (10 * n : ℤ) % TMSECS_PER_DAY < TMSECS_PER_DAY := by
    intro n
    unfold TMSECS_PER_DAY
    omega
  refine (boxcar_regular_iff boxcarConfig_hundredHertz 1 htags).mpr
    ⟨by decide, by decide, .inr (by decide), ?_⟩ fun n vindex => Int16.ofInt (n + vindex)
  intro g
  have hd : fourOfTen.decimate.toNat = 10 := rfl
  have hnpts : (4 : ℤ).toNat - 1 = 3 := rfl
  rw [hd, hnpts]
  unfold TMSECS_PER_DAY
  push_cast
  omega

/-- Four scans around midnight: their sample gets a tag in the middle of the day. -/
theorem not_boxcar_regular_midnight :
    ¬ fourOfTen.Regular 1 fun n => ⟨(863999990 + 10 * n) % TMSECS_PER_DAY, fun _ => 0⟩ := by
  intro hregular
  obtain ⟨-, -, id, -, htag⟩ := hregular.averages_groupSample boxcarConfig_hundredHertz 0
  dsimp only [groupSample, averageSample] at htag
  revert htag
  decide

end BoxcarFilter

end Nidas.Linux
