import Mathlib.Data.List.Lex
import Mathlib.Data.Prod.Lex
import Nidas.Core.Sample
import Nidas.Lib.KeyOrder
import Nidas.Lib.Loops
import Nidas.Lib.SortedSet

/-!
# Merging archives

`nidsmerge` reads samples from several inputs and writes them in the order of their time tags, each
of them once.  It goes on by windows of time: each input is read until a sample is one read-ahead
interval behind the start of the window, and then the samples in front of the start are written.

The times are integers without bounds.  `LONG_LONG_MIN` and `LONG_LONG_MAX`, which stand for times
that are not known or not limited, are `none` here.  An input is the list of the samples that
`readSample` returns until it throws an `EOFException`.  The matcher is a function of the name of the
input and the sample.  Without the option that forces increasing times, the last times by sample id
are only counted with, and they are left out with the statistics.
-/

namespace Nidas.Apps.NidsMerge

open Core Lib

/-! ## The order of the sorter -/

/-- `memcmp(x, y, n) < 0` -/
def memcmpLess : ℕ → List UInt8 → List UInt8 → Bool
  | n + 1, first :: x, second :: y =>
      if first < second then true
      else if second < first then false
      else memcmpLess n x y
  | _, _, _ => false

/-- `FullSampleComparator` -/
def fullLess (x y : Sample) : Bool :=
  if x.timeTag > y.timeTag then false
  else if x.timeTag = y.timeTag then
    if x.id > y.id then false
    else if x.id = y.id then
      if x.dataLength > y.dataLength then false
      else if x.dataLength = y.dataLength then memcmpLess x.dataLength x.data y.data
      else true
    else true
  else true

/-- What the comparator reads of a sample: the time tag, the id, the number of data values, and as
many bytes of the data. -/
def sortKey (samp : Sample) : ℤ ×ₗ ℕ ×ₗ ℕ ×ₗ List ℕ :=
  toLex (samp.timeTag, toLex (samp.id, toLex (samp.dataLength,
    (samp.data.take samp.dataLength).map UInt8.toNat)))

/-! ## The program -/

/-- The options of a run. -/
structure Options where
  readAheadUsecs : ℤ
  startTime : Option ℤ
  endTime : Option ℤ
  /-- `matcher.match`, of a sample of the input with this name -/
  selects : List Char → Sample → Bool

/-- An input before the run: without samples if there is no header. -/
structure Source where
  name : List Char
  samples : Option (List Sample)

/-- `InputInfo`, with the samples that are still to be read.  At the end of the input the last time
is `LONG_LONG_MAX`, and it is not read any more. -/
structure InputInfo where
  name : List Char
  unread : List Sample
  lastTime : Option ℤ
  eof : Bool

/-- `addInputStream` -/
def Source.opened (source : Source) : InputInfo :=
  ⟨source.name, source.samples.getD [], none, source.samples.isNone⟩

/-- `lastTime < filltime` -/
def isBefore : Option ℤ → Option ℤ → Bool
  | some lastTime, some filltime => lastTime < filltime
  | _, _ => true

variable (opts : Options)

/-- What filling an input leaves behind. -/
structure Filling where
  unread : List Sample
  lastTime : Option ℤ
  eof : Bool
  filltime : Option ℤ
  sorter : List Sample

/-- The loop that fills one input, with the start time as far as it is known. -/
def fillInput (startTime : Option ℤ) (name : List Char) :
    List Sample → Option ℤ → Option ℤ → List Sample → Filling
  | [], lastTime, filltime, sorter => ⟨[], lastTime, isBefore lastTime filltime, filltime, sorter⟩
  | samp :: unread, lastTime, filltime, sorter =>
      if isBefore lastTime filltime then
        if opts.selects name samp then
          let adjusted :=
            if startTime = none ∧
                isBefore (some (samp.timeTag + opts.readAheadUsecs)) filltime then
              some (samp.timeTag + opts.readAheadUsecs)
            else filltime
          if ∃ start ∈ startTime, samp.timeTag < start then
            fillInput startTime name unread (some samp.timeTag) adjusted sorter
          else
            fillInput startTime name unread (some samp.timeTag) adjusted
              (insertUnique fullLess samp sorter)
        else fillInput startTime name unread lastTime filltime sorter
      else ⟨samp :: unread, lastTime, false, filltime, sorter⟩

/-- All inputs are filled, one after the other. -/
def fillInputs (startTime : Option ℤ) :
    List InputInfo → Option ℤ → List Sample → List InputInfo × Option ℤ × List Sample
  | [], filltime, sorter => ([], filltime, sorter)
  | input :: inputs, filltime, sorter =>
      if input.eof then
        let rest := fillInputs startTime inputs filltime sorter
        (input :: rest.1, rest.2)
      else
        let filling := fillInput opts startTime input.name input.unread input.lastTime filltime sorter
        let rest := fillInputs startTime inputs filling.filltime filling.sorter
        (⟨input.name, filling.unread, filling.lastTime, filling.eof⟩ :: rest.1, rest.2)

/-- The sample that `find_preceding_samples` looks for. -/
def dummySample (tcur : ℤ) : Sample := ⟨tcur, .char, 0, []⟩

/-- The samples in front of a time, and the others. -/
def splitSorter (tcur : Option ℤ) (sorter : List Sample) : List Sample × List Sample :=
  match tcur with
  | none => (sorter, [])
  | some time =>
      (sorter.takeWhile fun samp => fullLess samp (dummySample time),
        sorter.dropWhile fun samp => fullLess samp (dummySample time))

/-- A sample is not behind the end time. -/
def beforeEnd (samp : Sample) : Bool := opts.endTime.all fun time => samp.timeTag < time

/-- `flushSorter`: the samples that are written, and those that stay. -/
def flushSorter (tcur : Option ℤ) (sorter : List Sample) : List Sample × List Sample :=
  ((splitSorter tcur sorter).1.filter (beforeEnd opts), (splitSorter tcur sorter).2)

/-- The variables of the loop in `run`. -/
structure Merging where
  inputs : List InputInfo
  sorter : List Sample
  startTime : Option ℤ
  tcur : Option ℤ
  isFirst : Bool
  written : List Sample

/-- `numOpen() > 0 && (!endTime.isSet() || tcur < endTime + readAheadUsecs)` -/
def goesOn (merging : Merging) : Bool :=
  merging.inputs.any (fun input => !input.eof) &&
    (match opts.endTime, merging.tcur with
      | some time, some tcur => tcur < time + opts.readAheadUsecs
      | _, _ => true)

/-- One window, or the end of the loop with the samples that have been written. -/
def window (merging : Merging) : Merging ⊕ List Sample :=
  if goesOn opts merging then
    let filltime := if merging.startTime = none then none
      else merging.tcur.map (· + opts.readAheadUsecs)
    let filled := fillInputs opts merging.startTime merging.inputs filltime merging.sorter
    let known := merging.startTime = none ∧ filled.2.1 ≠ none
    let tcur := if known then filled.2.1.map (· - opts.readAheadUsecs) else merging.tcur
    let startTime := if known then tcur else merging.startTime
    let flushed :=
      match merging.isFirst, tcur with
      | false, some time => flushSorter opts (some time) filled.2.2
      -- not in the first window, and nothing is in front of `LONG_LONG_MIN`
      | _, _ => ([], filled.2.2)
    .inl ⟨filled.1, flushed.2, startTime, tcur.map (· + opts.readAheadUsecs), false,
      merging.written ++ flushed.1⟩
  else .inr (merging.written ++ (flushSorter opts none merging.sorter).1)

/-- The variables before the loop. -/
def Options.initial (sources : List Source) : Merging :=
  ⟨sources.map Source.opened, [], opts.startTime, opts.startTime, true, []⟩

/-- `NidsMerge::run`: the samples that it writes, if it comes to an end. -/
def Runs (sources : List Source) (written : List Sample) : Prop :=
  Ends (window opts) (opts.initial sources) written

/-! ## The comparator is an order of keys -/

theorem memcmpLess_iff {n : ℕ} {x y : List UInt8} (hx : n ≤ x.length) (hy : n ≤ y.length) :
    memcmpLess n x y = true ↔ (x.take n).map UInt8.toNat < (y.take n).map UInt8.toNat := by
  induction n generalizing x y with
  | zero => simp [memcmpLess]
  | succ n ih =>
      cases x with
      | nil => simp at hx
      | cons first x =>
          cases y with
          | nil => simp at hy
          | cons second y =>
              have hrest := ih (Nat.le_of_succ_le_succ hx) (Nat.le_of_succ_le_succ hy)
              rw [memcmpLess, List.take_succ_cons, List.take_succ_cons, List.map_cons,
                List.map_cons, List.cons_lt_cons_iff, ← hrest]
              split
              · next hlt =>
                  rw [UInt8.lt_iff_toNat_lt] at hlt
                  simp [hlt]
              · next hge =>
                  rw [UInt8.lt_iff_toNat_lt] at hge
                  split
                  · next hgt =>
                      rw [UInt8.lt_iff_toNat_lt] at hgt
                      simp [hge, hgt.ne']
                  · next hle =>
                      rw [UInt8.lt_iff_toNat_lt] at hle
                      have heq : first.toNat = second.toNat := by omega
                      simp [heq]

theorem dataLength_le (samp : Sample) : samp.dataLength ≤ samp.data.length :=
  Nat.div_le_self _ _

/-- **The comparator orders by the key.** -/
theorem fullLess_iff (x y : Sample) : fullLess x y = true ↔ sortKey x < sortKey y := by
  unfold fullLess sortKey
  simp only [Prod.Lex.toLex_lt_toLex]
  rcases lt_trichotomy x.timeTag y.timeTag with htime | htime | htime
  · simp [htime, htime.not_gt, htime.ne]
  · rcases lt_trichotomy x.id y.id with hid | hid | hid
    · simp [htime, hid, hid.not_gt, hid.ne]
    · rcases lt_trichotomy x.dataLength y.dataLength with hlength | hlength | hlength
      · simp [htime, hid, hlength, hlength.not_gt, hlength.ne]
      · have hdata := memcmpLess_iff (dataLength_le x) (hlength ▸ dataLength_le y)
        rw [List.map_take, List.map_take, hlength] at hdata
        simpa [htime, hid, hlength] using hdata
      · simp [htime, hid, hlength, hlength.not_gt, hlength.ne']
    · simp [htime, hid, hid.not_gt, hid.ne']
  · simp [htime, htime.not_gt, htime.ne']

theorem fullLess_dummySample (samp : Sample) (time : ℤ) :
    fullLess samp (dummySample time) = decide (samp.timeTag < time) := by
  rw [Bool.eq_iff_iff, fullLess_iff, decide_eq_true_iff]
  simp [sortKey, dummySample, Sample.dataLength, Prod.Lex.toLex_lt_toLex]

end Nidas.Apps.NidsMerge
