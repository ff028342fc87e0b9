import Nidas.Lib.CondVar
import Nidas.Lib.KeyOrder
import Nidas.Lib.Runs
import Nidas.Core.SampleHeader

/-!
# The sample sorter

Any number of threads call `receive`, `flush` and `interrupt` of a `SampleSorter`, and the thread
of the sorter runs its loop (`SampleSorter.cc`).  The model is a machine whose steps are the
stretches of code between two synchronisations: the calls in progress are a list of program
points, and the loop has one of its own.  A stretch that holds `_heapCond` or `_flushCond` holds
no other lock at its end and is one step.  `_sampleSetCond` is held by the loop over several steps
(`RunPoint.locked`), and a step of a call that locks it is not enabled then.  A wait
ends only by a signal or a broadcast.

The statistics and the log messages are left out.  Sizes are natural numbers, as the samples are
in memory at the same time; the subtraction of `heapDecrement` wraps as that of a `size_t`.
-/

namespace Nidas.Core

open Lib

/-- A `const Sample*`; the address tells samples of the same contents apart. -/
structure SamplePtr extends Sample where
  address : ℕ
  deriving DecidableEq, Repr

/-- `getDataByteLength() + getHeaderLength()`, the sum of two values of type unsigned int -/
def SamplePtr.length (s : SamplePtr) : ℕ := (s.data.length + sampleHeaderSize) % 2 ^ 32

/-- `SampleTimetagComparator` compares the time tags. -/
def SamplePtr.getTimeTag (s : SamplePtr) : ℤ := s.timeTag

/-- The sizes of some samples together. -/
def totalLength (list : List SamplePtr) : ℕ := (list.map SamplePtr.length).sum

/-- What is set before the sorter is started. -/
structure SorterConfig where
  sorterLengthUsec : ℕ := 250000
  heapBlock : Bool := false
  realTime : Bool := false
  lateSampleCacheSize : ℕ := 0
  deriving DecidableEq, Repr

/-! ## Program points -/

/-- Where a call is. -/
inductive Call where
  /-- `receive`, in front of `_heapCond.lock()` -/
  | receive (s : SamplePtr)
  /-- `receive`, in `_heapCond.wait()` -/
  | heapWait (s : SamplePtr) (woken : Bool)
  /-- `receive`, in front of `_sampleSetCond.lock()` -/
  | insert (s : SamplePtr)
  /-- `flush`, in front of `_sampleSetCond.lock()` -/
  | flush
  /-- `flush`, in front of `_flushCond.lock()` -/
  | flushTest
  /-- `flush`, in `_flushCond.wait()` -/
  | flushWait (woken : Bool)
  /-- `interrupt`, in front of `_sampleSetCond.lock()` -/
  | interrupt
  /-- `interrupt`, in front of `_flushCond.lock()` -/
  | interruptFlush
  /-- `interrupt`, in front of `_heapCond.lock()` -/
  | interruptHeap
  deriving DecidableEq, Repr

namespace Call

/-- A thread that waits on `_heapCond` and has not been woken. -/
def onHeapCond : Call → Bool
  | heapWait _ woken => !woken
  | _ => false

/-- A thread that waits on `_flushCond` and has not been woken. -/
def onFlushCond : Call → Bool
  | flushWait woken => !woken
  | _ => false

/-- The wait ends. -/
def wake : Call → Call
  | heapWait s _ => heapWait s true
  | flushWait _ => flushWait true
  | call => call

end Call

/-- Where the loop of `run` is. -/
inductive RunPoint where
  /-- in front of `_sampleSetCond.lock()` and the test of `isInterrupted()` -/
  | loop
  /-- `_flushed` has been set, in front of `_flushCond.lock()` -/
  | broadcast
  /-- in front of `_doFlush = false` -/
  | clearFlush
  /-- no aged samples, in front of `_heapCond.lock()` -/
  | heapCheck
  /-- in front of `_sampleSetCond.wait()` -/
  | toWait
  /-- in `_sampleSetCond.wait()` -/
  | waiting
  /-- in the loop over the aged samples, and then in `heapDecrement(ssum)` -/
  | distributing (agedsamples : List SamplePtr) (ssum : ℕ)
  /-- behind the loop, in front of `_flushCond.lock()` -/
  | ending
  /-- `run` has returned -/
  | finished
  deriving DecidableEq, Repr

namespace RunPoint

/-- The loop holds `_sampleSetCond`. -/
def locked : RunPoint → Bool
  | broadcast | clearFlush | heapCheck | toWait => true
  | _ => false

/-- `_sampleSetCond.signal()`; only the loop waits on this condition. -/
def signalled : RunPoint → RunPoint
  | waiting => loop
  | point => point

/-- The samples that have been taken out and are not distributed yet. -/
def aged : RunPoint → List SamplePtr
  | distributing agedsamples _ => agedsamples
  | _ => []

/-- The sizes of the distributed samples that `heapDecrement` has not accounted for. -/
def distributedSize : RunPoint → ℕ
  | distributing _ ssum => ssum
  | _ => 0

end RunPoint

/-- The members of a `SampleSorter`, the calls in progress, and what has become of the samples:
those for which `receive` has returned true and false, and those that have been distributed and
released. -/
structure SampleSorter where
  samples : List SamplePtr := []
  heapMax : ℕ := 50 * 1000 * 1000
  heapSize : ℕ := 0
  heapExceeded : Bool := false
  doFlush : Bool := false
  flushed : Bool := true
  interrupted : Bool := false
  calls : List Call := []
  point : RunPoint := .loop
  received : List SamplePtr := []
  refused : List SamplePtr := []
  distributed : List SamplePtr := []
  released : List SamplePtr := []
  deriving DecidableEq, Repr

/-- What can happen: a call, the next step of the call at a place of the list, the next step of the
loop, or the end of the sorter.  Where a condition is signalled, `choice` is the place of the
call that is woken. -/
inductive SorterAction where
  | receive (s : SamplePtr) (systt : ℤ)
  | flush
  | interrupt
  | call (place choice : ℕ)
  | run (choice : ℕ)
  | destroy
  deriving DecidableEq, Repr

namespace SampleSorter

/-! ## Calls -/

/-- The loop of `receive` that waits on `_heapCond`, from the test to the wait. -/
def heapTest (sorter : SampleSorter) (place : ℕ) (s : SamplePtr) : SampleSorter :=
  if sorter.heapSize > sorter.heapMax then
    { sorter with
      heapExceeded := true
      point := sorter.point.signalled
      calls := proceed sorter.calls place (some (.heapWait s false)) }
  else
    { sorter with
      heapExceeded := false
      calls := proceed sorter.calls place (some (.insert s)) }

/-- The first part of `receive`, with `_heapCond` locked. -/
def heapAdd (config : SorterConfig) (sorter : SampleSorter) (place : ℕ) (s : SamplePtr) :
    SampleSorter :=
  let slen := s.length
  if config.heapBlock then heapTest { sorter with heapSize := sorter.heapSize + slen } place s
  else if sorter.heapSize + slen > sorter.heapMax then
    -- real-time behaviour, discard samples rather than blocking threads
    { sorter with
      heapExceeded := true
      calls := proceed sorter.calls place none
      refused := sorter.refused ++ [s] }
  else
    { sorter with
      heapSize := sorter.heapSize + slen
      heapExceeded := false
      calls := proceed sorter.calls place (some (.insert s)) }

/-- The last part of `receive`, with `_sampleSetCond` locked, and the return of true. -/
def insert (sorter : SampleSorter) (place : ℕ) (s : SamplePtr) : SampleSorter :=
  { sorter with
    samples := insertUpper SamplePtr.getTimeTag s sorter.samples
    flushed := false
    point := sorter.point.signalled
    calls := proceed sorter.calls place none
    received := sorter.received ++ [s] }

/-- The first part of `flush`, with `_sampleSetCond` locked. -/
def flushBegin (sorter : SampleSorter) (place : ℕ) : SampleSorter :=
  if sorter.flushed then { sorter with calls := proceed sorter.calls place none }
  else
    { sorter with
      doFlush := true
      point := sorter.point.signalled
      calls := proceed sorter.calls place (some .flushTest) }

/-- The loop of `flush`, with `_flushCond` locked, from the test to the wait. -/
def flushTest (sorter : SampleSorter) (place : ℕ) : SampleSorter :=
  if !sorter.flushed && !sorter.interrupted then
    { sorter with calls := proceed sorter.calls place (some (.flushWait false)) }
  else { sorter with calls := proceed sorter.calls place none }

/-- The last part of `interrupt`, with `_heapCond` locked. -/
def interruptHeap (sorter : SampleSorter) (place choice : ℕ) : Option SampleSorter :=
  match signal Call.onHeapCond Call.wake choice sorter.calls with
  | some calls =>
      some { sorter with
        -- make sure that it won't block on the heapMax again
        heapMax := if sorter.heapExceeded || sorter.heapSize > sorter.heapMax / 2 then
          sorter.heapMax + sorter.heapMax / 2 else sorter.heapMax
        calls := proceed calls place none }
  | none => none

/-- The next step of the call at a place of the list. -/
def callStep (config : SorterConfig) (sorter : SampleSorter) (place choice : ℕ) :
    Call → Option SampleSorter
  | .receive s => some (heapAdd config sorter place s)
  | .heapWait s true => some (heapTest sorter place s)
  | .heapWait _ false => none
  | .insert s => if sorter.point.locked then none else some (insert sorter place s)
  | .flush => if sorter.point.locked then none else some (flushBegin sorter place)
  | .flushTest => some (flushTest sorter place)
  | .flushWait true => some (flushTest sorter place)
  | .flushWait false => none
  | .interrupt =>
      if sorter.point.locked then none
      else
        some { sorter with
          interrupted := true
          point := sorter.point.signalled
          calls := proceed sorter.calls place (some .interruptFlush) }
  | .interruptFlush =>
      match signal Call.onFlushCond Call.wake choice sorter.calls with
      | some calls => some { sorter with calls := proceed calls place (some .interruptHeap) }
      | none => none
  | .interruptHeap => interruptHeap sorter place choice

/-! ## The loop -/

/-- The samples that are taken out: all of them in a flush, else those with time tags
before the time of the latest sample behind the late sample cache, less the sorter length. -/
def agedSamples (config : SorterConfig) (sorter : SampleSorter) :
    List SamplePtr × List SamplePtr :=
  if sorter.doFlush then (sorter.samples, [])
  else
    match fromEnd config.lateSampleCacheSize sorter.samples with
    | some late =>
        let tt := late.timeTag - config.sorterLengthUsec
        (below SamplePtr.getTimeTag tt sorter.samples,
          notBelow SamplePtr.getTimeTag tt sorter.samples)
    -- not reached, there are more samples than the cache holds
    | none => ([], sorter.samples)

/-- Take out the aged samples and free the lock, or go to the check of the heap. -/
def takeAged (config : SorterConfig) (sorter : SampleSorter) : SampleSorter :=
  match agedSamples config sorter with
  | ([], _) => { sorter with point := .heapCheck }
  | (first :: rest, left) =>
      { sorter with samples := left, point := .distributing (first :: rest) 0 }

/-- The loop from the lock of `_sampleSetCond` to the next synchronisation. -/
def loopTop (config : SorterConfig) (sorter : SampleSorter) : SampleSorter :=
  if sorter.interrupted then
    -- the loop ends, the remaining samples are released
    { sorter with
      samples := []
      flushed := true
      point := .ending
      released := sorter.released ++ sorter.samples }
  else if sorter.samples.length = 0 then
    { sorter with
      flushed := true
      point := if sorter.doFlush then .broadcast else .toWait }
  else if sorter.samples.length ≤ config.lateSampleCacheSize ∧ sorter.doFlush = false then
    -- not enough samples, wait
    { sorter with point := .toWait }
  else takeAged config sorter

/-- If there are no aged samples but the heap limit has been exceeded, extend the limit. -/
def heapCheck (sorter : SampleSorter) (choice : ℕ) : Option SampleSorter :=
  if sorter.heapExceeded then
    match signal Call.onHeapCond Call.wake choice sorter.calls with
    | some calls =>
        some { sorter with
          heapMax := sorter.heapMax + sorter.heapMax / 2
          heapExceeded := false
          point := .toWait
          calls := calls }
    | none => none
  else some { sorter with point := .toWait }

/-- The difference of two values of type `size_t`. -/
def sizeSub (size bytes : ℕ) : ℕ :=
  if bytes ≤ size then size - bytes else size + 2 ^ 64 - bytes

/-- `SampleSorter::heapDecrement` -/
def heapDecrement (config : SorterConfig) (sorter : SampleSorter) (bytes choice : ℕ) :
    Option SampleSorter :=
  let heapSize := sizeSub sorter.heapSize bytes
  if config.heapBlock && sorter.heapExceeded && heapSize < sorter.heapMax / 2 then
    match signal Call.onHeapCond Call.wake choice sorter.calls with
    | some calls =>
        some { sorter with heapSize := heapSize, heapExceeded := false, point := .loop, calls := calls }
    | none => none
  else some { sorter with heapSize := heapSize, point := .loop }

/-- The next step of `run`. -/
def runStep (config : SorterConfig) (sorter : SampleSorter) (choice : ℕ) : Option SampleSorter :=
  match sorter.point with
  | .loop => some (loopTop config sorter)
  | .broadcast =>
      some { sorter with
        point := .clearFlush
        calls := broadcast Call.onFlushCond Call.wake sorter.calls }
  | .clearFlush => some { sorter with doFlush := false, point := .toWait }
  | .heapCheck => heapCheck sorter choice
  | .toWait => some { sorter with point := .waiting }
  | .waiting => none
  | .distributing (s :: rest) ssum =>
      some { sorter with
        point := .distributing rest (ssum + s.length)
        distributed := sorter.distributed ++ [s] }
  | .distributing [] ssum => heapDecrement config sorter ssum choice
  | .ending =>
      some { sorter with
        point := .finished
        calls := broadcast Call.onFlushCond Call.wake sorter.calls }
  | .finished => none

/-! ## The machine -/

/-- The time tag of a sample is more than two seconds in the future. -/
def inFuture (config : SorterConfig) (s : SamplePtr) (systt : ℤ) : Bool :=
  config.realTime && decide (s.timeTag > systt + usecsPerSec * 2)

/-- One step of the threads. -/
def step (config : SorterConfig) (sorter : SampleSorter) : SorterAction → Option SampleSorter
  | .receive s systt =>
      if inFuture config s systt then some { sorter with refused := sorter.refused ++ [s] }
      else some { sorter with calls := sorter.calls ++ [.receive s] }
  | .flush => some { sorter with calls := sorter.calls ++ [.flush] }
  | .interrupt => some { sorter with calls := sorter.calls ++ [.interrupt] }
  | .call place choice =>
      match sorter.calls[place]? with
      | some call => callStep config sorter place choice call
      | none => none
  | .run choice => runStep config sorter choice
  | .destroy =>
      -- the thread has been joined and nobody uses the sorter any more
      if sorter.point = .finished ∧ sorter.calls = [] then
        some { sorter with samples := [], released := sorter.released ++ sorter.samples }
      else none

/-- The sorter when it has been started. -/
def started (heapMax : ℕ) : SampleSorter where
  heapMax := heapMax

/-- A sample of one byte. -/
def oneByte (timeTag : ℤ) (address : ℕ) : SamplePtr where
  timeTag := timeTag
  type := .char
  id := 0
  data := [0]
  address := address

end SampleSorter

end Nidas.Core
