import Nidas.Core.ResamplerSlot
import Nidas.Lib.Answers

/-!
# Resampling at the times of a master variable

A `NearestResampler` sends a sample for each value of its master variable, with the values of the
other variables that are nearest to it in time.  It does so when the next value of the master is
received, or at a flush.

A sample is taken apart into its values, and the calls into events: a value of a variable, or a
flush.
-/

namespace Nidas.Core

open Lib

/-! ## The resampler -/

/-- The members of a `NearestResampler`.  `nansVariable` is whether the number of values is part of
the output. -/
structure NearestResampler where
  master : ℕ := 0
  ndataValues : ℕ
  nansVariable : Bool := true
  inputs : ℕ → Option (List AveragedVariable)
  nmaster : ℕ := 0
  slots : ℕ → ResamplerSlot := fun _ => {}

/-- What a resampler is called with. -/
inductive ResamplerCall where
  | receive (samp : ValueSample)
  | flush

/-- A value of a variable, given by its output index, or a flush. -/
inductive ResamplerEvent where
  | value (tt : ℤ) (index : ℕ) (val : Option ℚ)
  | flush

namespace NearestResampler

/-- `minTT` and `maxTT` when a value of the master is received -/
def window (resampler : NearestResampler) (tt : ℤ) : ℤ × ℤ :=
  let master := resampler.slots resampler.master
  if resampler.nmaster < 2 then
    (master.prevTT - ((tt - master.prevTT) * 9).tdiv 10, tt - (tt - master.prevTT).tdiv 10)
  else
    (master.nearTT + (master.prevTT - master.nearTT).tdiv 10, tt - (tt - master.prevTT).tdiv 10)

/-- `minTT` and `maxTT` in `flush` -/
def flushWindow (resampler : NearestResampler) : ℤ × ℤ :=
  let master := resampler.slots resampler.master
  (master.nearTT, master.prevTT + (master.prevTT - master.nearTT))

/-- The value for a variable. -/
def outValue (resampler : NearestResampler) (window : ℤ × ℤ) (k : ℕ) : Option ℚ :=
  if k = resampler.master then (resampler.slots k).prevData
  else
    let chosen := (resampler.slots k).chosen
    if chosen.1 > window.2 ∨ chosen.1 < window.1 then none else chosen.2

/-- The output sample, with the time tag of the master. -/
def output (resampler : NearestResampler) (window : ℤ × ℤ) : ResampledOutput :=
  let values := (List.range resampler.ndataValues).map (resampler.outValue window)
  { timeTag := (resampler.slots resampler.master).prevTT
    data := values ++
      if resampler.nansVariable then [some ((values.countP Option.isSome : ℕ) : ℚ)] else [] }

/-- A value of the master that is before the previous one. -/
def recover (resampler : NearestResampler) (tt : ℤ) (val : Option ℚ) : NearestResampler :=
  { resampler with
    nmaster := 1
    slots := fun k =>
      let slot := resampler.slots k
      if k = resampler.master then { slot with nearTT := 0, prevTT := tt, prevData := val }
      else
        let nearer :=
          if |tt - slot.nearTT| > |tt - slot.prevTT| then
            { slot with nearTT := slot.prevTT, nearData := slot.prevData }
          else slot
        { nearer with samplesSince := if slot.prevTT > tt then 1 else 0 } }

/-- The previous value of the master, and the one before it. -/
def advanceMaster (slot : ResamplerSlot) (tt : ℤ) (val : Option ℚ) : ResamplerSlot :=
  { slot with nearTT := slot.prevTT, prevTT := tt, prevData := val }

/-- The part of `receive` for a value of the master -/
def receiveMaster (resampler : NearestResampler) (tt : ℤ) (val : Option ℚ) :
    NearestResampler × List ResampledOutput :=
  let master := resampler.slots resampler.master
  if resampler.nmaster = 0 then
    ({ resampler with
        nmaster := 1
        slots := Function.update resampler.slots resampler.master (advanceMaster master tt val) },
      [])
  else if tt < master.prevTT then (resampler.recover tt val, [])
  else
    ({ resampler with
        nmaster := 2
        slots := fun k =>
          if k = resampler.master then advanceMaster master tt val
          else (resampler.slots k).restart },
      [resampler.output (resampler.window tt)])

/-- The part of `receive` for a value of another variable -/
def receiveOther (resampler : NearestResampler) (tt : ℤ) (index : ℕ) (val : Option ℚ) :
    NearestResampler :=
  let slot := resampler.slots index
  let master := (resampler.slots resampler.master).prevTT
  { resampler with
    slots := Function.update resampler.slots index
      (if tt < slot.prevTT then slot.takeEarlier master tt val
      else if tt < master then { slot with prevData := val, prevTT := tt, samplesSince := 0 }
      else slot.take master tt val) }

/-- `NearestResampler::flush` -/
def flush (resampler : NearestResampler) : NearestResampler × List ResampledOutput :=
  if resampler.nmaster < 2 then (resampler, [])
  else
    ({ resampler with
        nmaster := 0
        slots := fun k =>
          if k = resampler.master then { resampler.slots k with prevData := none }
          else { resampler.slots k with samplesSince := 0, prevData := none } },
      [resampler.output resampler.flushWindow])

/-- What is done at an event, with the samples that are distributed. -/
def step (resampler : NearestResampler) :
    ResamplerEvent → NearestResampler × List ResampledOutput
  | .value tt index val =>
      if index = resampler.master then resampler.receiveMaster tt val
      else (resampler.receiveOther tt index val, [])
  | .flush => resampler.flush

/-- The events of a call: a sample of type float or double and a known id has the values of its
variables. -/
def events (resampler : NearestResampler) : ResamplerCall → List ResamplerEvent
  | .receive samp =>
      if samp.type ≠ .float ∧ samp.type ≠ .double then []
      else
        match resampler.inputs samp.id with
        | none => []
        | some vars => (resampledValues vars samp.data).map fun value =>
            .value samp.timeTag value.1 value.2
  | .flush => [.flush]

/-- `NearestResampler::receive` and `flush`, with the samples that are distributed -/
def call (resampler : NearestResampler) (calling : ResamplerCall) :
    NearestResampler × List ResampledOutput :=
  (afterCalls step resampler (resampler.events calling),
    (answers step resampler (resampler.events calling)).flatten)

/-! ## What the outputs should be -/

/-- The values of a variable since the last flush, with one event more. -/
def hear (k : ℕ) (items : List (ℤ × Option ℚ)) : ResamplerEvent → List (ℤ × Option ℚ)
  | .value tt index val => if index = k then items ++ [(tt, val)] else items
  | .flush => []

/-- The values of a variable since the start or the last flush. -/
def received (k : ℕ) (before : List ResamplerEvent) : List (ℤ × Option ℚ) :=
  before.foldl (hear k) []

/-- The window that is computed for the output at an event. -/
def windowAt (resampler : NearestResampler) : ResamplerEvent → ℤ × ℤ
  | .value tt _ _ => resampler.window tt
  | .flush => resampler.flushWindow

/-- A value that belongs to a nearest item, if that is in the window, and is NaN otherwise. -/
def NearestValue (items : List (ℤ × Option ℚ)) (time : ℤ) (window : ℤ × ℤ) (val : Option ℚ) :
    Prop :=
  items = [] ∧ val = none ∨
    ∃ item, IsNearest time items item ∧
      val = if window.1 ≤ item.1 ∧ item.1 ≤ window.2 then item.2 else none

/-- The outputs at an event have the nearest values of the other variables. -/
def SendsNearest (start : NearestResampler) (before : List ResamplerEvent)
    (event : ResamplerEvent) : Prop :=
  ∀ out ∈ ((afterCalls step start before).step event).2,
    ∀ k < start.ndataValues, k ≠ start.master → ∃ val, out.data[k]? = some val ∧
      NearestValue (received k before) out.timeTag ((afterCalls step start before).windowAt event)
        val

/-- What has to hold before an event.  At the first value of the master there is none of another
variable since the start or the last flush; the first value of another variable is nearer to the
master than the time of a value that does not exist or is from before the flush; and there is no
flush after the first value of the master alone, if there are values of other variables. -/
def Prepared (start : NearestResampler) (before : List ResamplerEvent) : ResamplerEvent → Prop
  | .value tt index _ =>
      let resampler := afterCalls step start before
      if index = start.master then
        resampler.nmaster = 0 →
          ∀ k < start.ndataValues, k ≠ start.master → (resampler.slots k).samplesSince = 0
      else
        resampler.nmaster ≠ 0 → received index before = [] →
          (resampler.slots start.master).prevTT > (tt + (resampler.slots index).prevTT).tdiv 2
  | .flush =>
      (afterCalls step start before).nmaster = 1 →
        ∀ k < start.ndataValues, k ≠ start.master → received k before = []

instance (start : NearestResampler) (before : List ResamplerEvent) (event : ResamplerEvent) :
    Decidable (Prepared start before event) :=
  match event with
  | .value _ _ _ => inferInstanceAs (Decidable (ite _ _ _))
  | .flush => inferInstanceAs (Decidable (_ → _))

/-- The time of the last value. -/
def lastTime (before : List ResamplerEvent) : ℤ :=
  before.foldl (fun time event =>
    match event with
    | .value tt _ _ => tt
    | .flush => time) 0

/-- The times of the values are positive and do not decrease. -/
def Ordered (before : List ResamplerEvent) : ResamplerEvent → Prop
  | .value tt _ _ => 0 < tt ∧ lastTime before ≤ tt
  | .flush => True

end NearestResampler

end Nidas.Core
