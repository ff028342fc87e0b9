import Mathlib.Algebra.Order.Ring.Abs
import Mathlib.Tactic.Linarith
import Nidas.Lib.MachineInt
import Nidas.Linux.Types

/-!
# Filters of the A2D drivers

A filter gets the scans of the converter one by one and now and then has a sample to output.  The
boxcar filter averages the first `npts` of every `decimate` scans.  The time average filter averages
the scans of an interval of time and outputs every `decimate`-th average.
-/

namespace Nidas.Linux

open Lib

/-- `short_sample_t`. -/
structure ShortSample where
  timetag : ℤ
  length : ℤ
  id : Int16
  data : List Int16
  deriving DecidableEq

/-- `struct short_filter_data`: the channels, the rates and the index for the sample. -/
structure ShortFilterData where
  channels : List ℤ
  inputRate : ℤ
  outputRate : ℤ
  sampleIndex : Int16

/-- How configuring or running a filter fails. -/
inductive FilterError where
  | EINVAL
  | ENOMEM
  | divideError
  deriving DecidableEq

/-- A scan of the converter: its time tag, and what is at an index of the input. -/
structure Scan where
  tt : ℤ
  input : ℤ → Int16

/-- The value of a channel in a scan. -/
def Scan.channel (scan : Scan) (skipFactor vindex : ℤ) : ℤ :=
  (scan.input (vindex * skipFactor)).toInt

/-- Add a scan to the sums, which are integers of 32 bits. -/
def addToSums (sums : List ℤ) (vindices : List ℤ) (skipFactor : ℤ) (scan : Scan) : List ℤ :=
  List.zipWith (fun sum vindex => toInt32 (sum + scan.channel skipFactor vindex)) sums vindices

theorem addToSums_map (partialSum : ℤ → ℤ) (vindices : List ℤ) (skipFactor : ℤ) (scan : Scan) :
    addToSums (vindices.map fun vindex => toInt32 (partialSum vindex)) vindices skipFactor scan =
      vindices.map fun vindex => toInt32 (partialSum vindex + scan.channel skipFactor vindex) := by
  unfold addToSums
  rw [List.zipWith_map_left, List.zipWith_self]
  simp only [toInt32_toInt32_add]

/-- `DIV_ROUND_CLOSEST`. -/
def divRoundClosest (sum npts : ℤ) : ℤ :=
  if sum > 0 then (toInt32 (sum + npts.tdiv 2)).tdiv npts
  else (toInt32 (sum - npts.tdiv 2)).tdiv npts

/-- The sample of some sums. -/
def averageSample (timetag : ℤ) (id : Int16) (sums : List ℤ) (npts : ℤ) : ShortSample :=
  { timetag := timetag
    length := (1 + sums.length) * 2
    id := id
    data := sums.map fun sum => Int16.ofInt (divRoundClosest sum npts) }

/-! ## Boxcar -/

/-- `struct boxcar_filter`. -/
structure BoxcarFilter where
  decimate : ℤ
  vindices : List ℤ
  sums : List ℤ
  npts : ℤ
  count : ℤ
  tsave : ℤ
  sampleIndex : Int16
  deriving DecidableEq

/-- `boxcar_config`, of a filter that `boxcar_init` has cleared. -/
def boxcarConfig (kmalloc : ℕ → Bool) (fdata : ShortFilterData) (npts nbcfg : ℤ) :
    Except FilterError BoxcarFilter :=
  if fdata.outputRate = 0 then .error .divideError
  else if fdata.inputRate.tmod fdata.outputRate ≠ 0 then .error .EINVAL
  else if nbcfg ≠ 4 then .error .EINVAL
  else if !kmalloc (fdata.channels.length * 4) then .error .ENOMEM
  else
    .ok
      { decimate := toInt32 (fdata.inputRate.tdiv fdata.outputRate)
        vindices := fdata.channels
        sums := fdata.channels.map fun _ => 0
        npts := npts
        count := 0
        tsave := 0
        sampleIndex := fdata.sampleIndex }

namespace BoxcarFilter

/-- The difference of the last and the first tag, with the correction for midnight. -/
def tdiff (first last : ℤ) : ℤ :=
  let tdiff := toInt32 (last - first)
  if tdiff < 0 then
    if tdiff < (-TMSECS_PER_SEC).tdiv 2 then toInt32 (tdiff + TMSECS_PER_SEC)
    else if tdiff < (-MSECS_PER_SEC).tdiv 2 then toInt32 (tdiff + MSECS_PER_SEC)
    else tdiff
  else tdiff

/-- After `decimate` scans the count starts again. -/
def restart (this : BoxcarFilter) : BoxcarFilter :=
  if this.count = this.decimate then { this with count := 0 } else this

end BoxcarFilter

/-- `boxcar_filter`: the sample that is output, if any, and the filter afterwards. -/
def boxcarFilter (skipFactor : ℤ) (this : BoxcarFilter) (scan : Scan) :
    Option ShortSample × BoxcarFilter :=
  let this := { this with count := toInt32 (this.count + 1) }
  if this.count ≤ this.npts then
    let this :=
      { this with
        sums := addToSums this.sums this.vindices skipFactor scan
        tsave := if this.count = 1 then scan.tt else this.tsave }
    if this.count = this.npts then
      -- middle time
      let timetag := toInt32 (this.tsave + (BoxcarFilter.tdiff this.tsave scan.tt).tdiv 2)
      (some (averageSample timetag this.sampleIndex this.sums this.npts),
        { this with sums := this.sums.map fun _ => 0 }.restart)
    else (none, this.restart)
  else (none, this.restart)

/-! ## Time average -/

/-- `struct timeavg_filter`. -/
structure TimeavgFilter where
  decimate : ℤ
  deltaTmsecs : ℤ
  endTime : ℤ
  nout : ℤ
  vindices : List ℤ
  sums : List ℤ
  nsum : ℤ
  sampleIndex : Int16
  deriving DecidableEq

/-- `timeavg_config`, of a filter that `timeavg_init` has cleared. -/
def timeavgConfig (kmalloc : ℕ → Bool) (fdata : ShortFilterData) (rate nbcfg : ℤ) :
    Except FilterError TimeavgFilter :=
  if nbcfg ≠ 4 then .error .EINVAL
  else if fdata.outputRate = 0 then .error .divideError
  else if rate.tmod fdata.outputRate ≠ 0 then .error .EINVAL
  else if rate = 0 then .error .divideError
  else if !kmalloc (fdata.channels.length * 4) then .error .ENOMEM
  else
    .ok
      { decimate := toInt32 (rate.tdiv fdata.outputRate)
        deltaTmsecs := TMSECS_PER_SEC.tdiv rate
        endTime := -2 ^ 31
        nout := 0
        vindices := fdata.channels
        sums := fdata.channels.map fun _ => 0
        nsum := 0
        sampleIndex := fdata.sampleIndex }

/-- The tag as a time of the day. -/
def timeOfDay (tt : ℤ) : ℤ :=
  if tt ≥ TMSECS_PER_DAY then toInt32 (tt - TMSECS_PER_DAY)
  else if tt < 0 then toInt32 (tt + TMSECS_PER_DAY)
  else tt

namespace TimeavgFilter

/-- The sample of the interval that ends, if it is one to output. -/
def output (this : TimeavgFilter) : Option ShortSample :=
  if this.nout % toUInt32 this.decimate = 0 ∧ this.nsum > 0 then
    let tout := toInt32 (this.endTime - this.deltaTmsecs.tdiv 2)
    -- midnight rollover
    let tout := if tout < 0 then toInt32 (tout + TMSECS_PER_DAY) else tout
    some (averageSample tout this.sampleIndex this.sums this.nsum)
  else none

/-- The end of the next interval. -/
def nextEnd (this : TimeavgFilter) (tt : ℤ) : ℤ :=
  let endTime := toInt32 (this.endTime + this.deltaTmsecs)
  let endTime :=
    if endTime ≥ TMSECS_PER_DAY then toInt32 (endTime - TMSECS_PER_DAY) else endTime
  -- roll forward
  if tt ≥ endTime then toInt32 (tt + this.deltaTmsecs - tt.tmod this.deltaTmsecs) else endTime

/-- Begin with the next interval. -/
def begin (this : TimeavgFilter) (tt : ℤ) : TimeavgFilter :=
  { this with
    nout := toUInt32 (this.nout + 1)
    sums := this.sums.map fun _ => 0
    nsum := 0
    endTime := this.nextEnd tt }

/-- Add the scan to the interval. -/
def add (this : TimeavgFilter) (skipFactor : ℤ) (scan : Scan) : TimeavgFilter :=
  { this with
    sums := addToSums this.sums this.vindices skipFactor scan
    nsum := toInt32 (this.nsum + 1) }

end TimeavgFilter

/-- `timeavg_filter`: the sample that is output, if any, and the filter afterwards. -/
def timeavgFilter (skipFactor : ℤ) (this : TimeavgFilter) (scan : Scan) :
    Except FilterError (Option ShortSample × TimeavgFilter) :=
  let tt := timeOfDay scan.tt
  if tt ≥ this.endTime then
    if this.decimate = 0 ∨ this.deltaTmsecs = 0 then .error .divideError
    else .ok (this.output, (this.begin tt).add skipFactor scan)
  else .ok (none, this.add skipFactor scan)

/-! ## Rounded means -/

/-- `value` is the closest integer to the mean of `npts` values with this sum. -/
def IsRounded (value sum npts : ℤ) : Prop := 2 * |npts * value - sum| ≤ npts

theorem toInt_bounds (value : Int16) : -32768 ≤ value.toInt ∧ value.toInt ≤ 32767 := by
  have hlow := value.le_toInt
  have hhigh := value.toInt_lt
  omega

theorem toInt_ofInt16 {value : ℤ} (hlow : -32768 ≤ value) (hhigh : value ≤ 32767) :
    (Int16.ofInt value).toInt = value := by
  rw [Int16.toInt_ofInt]
  exact Int.bmod_eq_of_le (by norm_num; omega) (by norm_num; omega)

/-- Division that truncates. -/
theorem tdiv_eq_ite (a b : ℤ) : a.tdiv b = if 0 ≤ a then a / b else -(-a / b) := by
  split
  · next hnonneg => exact Int.tdiv_eq_ediv_of_nonneg hnonneg
  · next hneg => rw [← Int.tdiv_eq_ediv_of_nonneg (by omega), Int.neg_tdiv, neg_neg]

/-- Half of the divisor is added before a division that rounds down. -/
theorem isRounded_ediv {sum npts : ℤ} (hone : 1 ≤ npts) :
    IsRounded ((sum + npts / 2) / npts) sum npts := by
  have hquot := Int.mul_ediv_add_emod (sum + npts / 2) npts
  have hrem := Int.emod_nonneg (sum + npts / 2) (show npts ≠ 0 by omega)
  have hrem' := Int.emod_lt_of_pos (sum + npts / 2) (show 0 < npts by omega)
  unfold IsRounded
  rcases abs_cases (npts * ((sum + npts / 2) / npts) - sum) with ⟨habs, -⟩ | ⟨habs, -⟩
  · rw [habs]
    omega
  · rw [habs]
    omega

theorem IsRounded.neg {value sum npts : ℤ} (hround : IsRounded value sum npts) :
    IsRounded (-value) (-sum) npts := by
  unfold IsRounded at *
  have hneg : npts * -value - -sum = -(npts * value - sum) := by ring
  rw [hneg, abs_neg]
  exact hround

/-- With no more than 65535 values nothing overflows. -/
theorem isRounded_divRoundClosest {sum npts : ℤ} (hone : 1 ≤ npts) (hmax : npts ≤ 65535)
    (hlow : -32768 * npts ≤ sum) (hhigh : sum ≤ 32767 * npts) :
    IsRounded (Int16.ofInt (divRoundClosest (toInt32 sum) npts)).toInt sum npts := by
  have hhalf : npts.tdiv 2 = npts / 2 := Int.tdiv_eq_ediv_of_nonneg (by omega)
  have hsum : toInt32 sum = sum := toInt32_of_range (by omega) (by omega)
  unfold divRoundClosest
  rw [hsum, hhalf]
  split
  · next hpos =>
      rw [toInt32_of_range (by omega) (by omega), Int.tdiv_eq_ediv_of_nonneg (by omega)]
      have hquotLow : 0 ≤ (sum + npts / 2) / npts := Int.ediv_nonneg (by omega) (by omega)
      have hquotHigh : (sum + npts / 2) / npts < 32768 :=
        Int.ediv_lt_of_lt_mul (by omega) (by omega)
      rw [toInt_ofInt16 (by omega) (by omega)]
      exact isRounded_ediv hone
  · next hneg =>
      have hflip : (sum - npts / 2).tdiv npts = -((-sum + npts / 2) / npts) := by
        have hneg : sum - npts / 2 = -(-sum + npts / 2) := by ring
        rw [hneg, Int.neg_tdiv, Int.tdiv_eq_ediv_of_nonneg (by omega)]
      have hstored : toInt32 (sum - npts / 2) = sum - npts / 2 :=
        toInt32_of_range (by omega) (by omega)
      rw [hstored, hflip]
      have hquotLow : 0 ≤ (-sum + npts / 2) / npts := Int.ediv_nonneg (by omega) (by omega)
      have hquotHigh : (-sum + npts / 2) / npts < 32769 :=
        Int.ediv_lt_of_lt_mul (by omega) (by omega)
      rw [toInt_ofInt16 (by omega) (by omega)]
      have hround : IsRounded ((-sum + npts / 2) / npts) (-sum) npts := isRounded_ediv hone
      simpa only [neg_neg] using hround.neg

end Nidas.Linux
