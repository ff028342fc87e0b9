import Nidas.Lib.Rounding
import Nidas.Core.Sample

/-!
# Sync records

`SyncRecordSource` (`raf/SyncRecordSource.cc`) resamples a stream of samples into records of one
second.  A sample id has a number of slots in a record, and each of its variables has a place
for every slot.  Two records are filled at a time, the current one and perhaps the one of the next
second.  Every sample goes to the slot behind that of the last one, unless its time tag tells
otherwise.

A failed assertion, a division by zero, a conversion to `int` out of its range and any use of a
record that is not there end a run (`SyncFault`).  Statistics and log messages are left out.  The
other integers of the source are those of Lean: the time tags are microseconds since 1970, and the
differences of them that `receive` computes stay within a few sample intervals.
-/

namespace Nidas.Dynld

open Lib Core

variable {α : Type*}

/-! ## Variables and layout -/

/-- `Variable::type_t` -/
inductive VariableType where
  | continuous
  | counter
  | clock
  | other
  | weight
  deriving DecidableEq, Repr

/-- What is used of a `Variable`. -/
structure SyncVariable where
  type : VariableType := .continuous
  length : ℕ := 1
  deriving DecidableEq, Repr

/-- What is used of a `SampleTag`; the rate is a `double`. -/
structure SyncTag where
  id : ℕ
  rate : ℚ
  processed : Bool := true
  vars : List SyncVariable
  deriving DecidableEq, Repr

/-- A variable that goes into the sync record. -/
def SyncVariable.selected (var : SyncVariable) : Bool :=
  var.type = .continuous || var.type = .counter

/-- A selected variable with the id and the rate of its tag, and with the position in a sample where
the values of the variable begin. -/
structure TaggedVariable where
  id : ℕ
  rate : ℚ
  length : ℕ
  position : ℕ
  deriving DecidableEq, Repr

/-- The selected ones of the variables of a tag, which begin at a position. -/
def SyncTag.selectFrom (tag : SyncTag) : ℕ → List SyncVariable → List TaggedVariable
  | _, [] => []
  | position, var :: rest =>
      let selected := tag.selectFrom (position + var.length) rest
      if var.selected then ⟨tag.id, tag.rate, var.length, position⟩ :: selected else selected

/-- `SyncRecordSource::selectVariablesFromSensor`, with the ids that have been seen.  A tag whose only
variable is not selected does not count as seen. -/
def selectVariablesFromSensor : List ℕ → List SyncTag → List TaggedVariable
  | _, [] => []
  | seen, tag :: rest =>
      if !tag.processed then selectVariablesFromSensor seen rest
      else if tag.vars.length = 1 ∧ tag.vars.all (fun var => !var.selected) then
        selectVariablesFromSensor seen rest
      -- shouldn't happen
      else if tag.id ∈ seen then selectVariablesFromSensor seen rest
      else tag.selectFrom 0 tag.vars ++ selectVariablesFromSensor (tag.id :: seen) rest

/-- `SyncRecordSource::selectVariablesFromProject`, over the sensors of the project -/
def selectVariablesFromProject (sensors : List (List SyncTag)) : List TaggedVariable :=
  sensors.flatMap (selectVariablesFromSensor [])

/-- What ends a run: a failed assertion, a division by zero, a conversion of a value that an `int`
cannot hold, a use of a record that is not there, or a recursion without end. -/
inductive SyncFault where
  | assertion
  | division
  | conversion
  | stale
  | recursion
  deriving DecidableEq, Repr

/-- The members of a `SyncInfo`.  `irec` is the index of one of the two records. -/
structure SyncInfo where
  id : ℕ
  rate : ℚ
  nSlots : ℤ
  dtUsec : ℤ
  skipMod : ℤ
  outOfSlotMax : ℤ
  varLengths : List ℕ := []
  varSRIndex : List ℕ := []
  sampleLength : ℕ := 1
  sampleSRIndex : ℕ := 0
  islot : ℤ := -1
  irec : Bool := false
  minDiffInit : ℤ
  minDiff : ℤ
  skipModCount : ℤ := 0
  nEarlySamp : ℤ := 0
  nLateSamp : ℤ := 0
  deriving DecidableEq, Repr

/-- `USECS_PER_SEC / rate`, an operation of type `float` -/
def usecsPerSample (rate : ℚ) : ℚ := roundFloat (1000000 / rate)

/-- `(int)::ceil(rate)` -/
def slotsPerSecond (rate : ℚ) : ℤ := ⌈rate⌉

/-- `(int)rint(USECS_PER_SEC / rate)` -/
def usecsPerSlot (rate : ℚ) : ℤ := rint (usecsPerSample rate)

/-- `(int)ceil(USECS_PER_SEC / rate / 2)` -/
def halfUsecsPerSample (rate : ℚ) : ℤ := ⌈usecsPerSample rate / 2⌉

/-- `(int)(1.0 / (1 - (nSlots-rate)))` -/
def skipModulus (rate : ℚ) : ℤ :=
  ⌊roundDouble (1 / roundFloat (1 - roundFloat (slotsPerSecond rate - rate)))⌋

/-- The limit of an `int`. -/
def intLimit : ℤ := 2 ^ 31

/-- `SyncInfo::SyncInfo` -/
def SyncInfo.new (id : ℕ) (rate : ℚ) : Except SyncFault SyncInfo :=
  let dtUsec := usecsPerSlot rate
  if dtUsec ≥ intLimit then .error .conversion
  -- outOfSlotMax is a quotient; a rate that is too high for nSlots ends here too
  else if dtUsec = 0 then .error .division
  else
    .ok
      { id := id
        rate := rate
        nSlots := slotsPerSecond rate
        dtUsec := dtUsec
        skipMod := skipModulus rate
        outOfSlotMax := max (3000000 / dtUsec) 5
        minDiffInit := dtUsec
        minDiff := dtUsec }

/-- `SyncInfo::addVariable` -/
def SyncInfo.addVariable (sinfo : SyncInfo) (vlen : ℕ) : SyncInfo :=
  { sinfo with
    varLengths := sinfo.varLengths ++ [vlen]
    varSRIndex := sinfo.varSRIndex ++ [sinfo.sampleLength]
    sampleLength := sinfo.sampleLength + vlen * sinfo.nSlots.toNat }

/-- `_syncInfo.find(id)`, the insertion of a new `SyncInfo` in the order of the ids if there is
none, and `addVariable`. -/
def insertVariable (var : TaggedVariable) (rate : ℚ) :
    List SyncInfo → Except SyncFault (List SyncInfo)
  | [] => (SyncInfo.new var.id rate).map fun sinfo => [sinfo.addVariable var.length]
  | sinfo :: rest =>
      if var.id = sinfo.id then .ok (sinfo.addVariable var.length :: rest)
      else if var.id < sinfo.id then
        (SyncInfo.new var.id rate).map fun added => added.addVariable var.length :: sinfo :: rest
      else (insertVariable var rate rest).map (sinfo :: ·)

/-- The `SyncInfo`s of the variables, and `_halfMaxUsecsPerSample`. -/
def addVariables : List TaggedVariable → List SyncInfo → ℤ → Except SyncFault (List SyncInfo × ℤ)
  | [], infos, half => .ok (infos, half)
  | var :: rest, infos, half =>
      let rate := roundFloat var.rate
      if rate ≤ 0 then addVariables rest infos half
      else
        match insertVariable var rate infos with
        | .error fault => .error fault
        | .ok infos =>
            if halfUsecsPerSample rate ≥ intLimit then .error .conversion
            else addVariables rest infos (max half (halfUsecsPerSample rate))

/-- Lay out the record: one sample behind the other. -/
def layOut : ℕ → List SyncInfo → List SyncInfo × ℕ
  | index, [] => ([], index)
  | index, sinfo :: rest =>
      let after := layOut (index + sinfo.sampleLength) rest
      ({ sinfo with
          sampleSRIndex := index
          varSRIndex := sinfo.varSRIndex.map (· + index) } :: after.1, after.2)

/-! ## Records -/

/-- A value of a record: NaN, a time offset, or a value of a sample. -/
inductive Cell (α : Type*) where
  | nan
  | offset (usec : ℤ)
  | value (a : α)
  deriving DecidableEq, Repr

/-- A record, with a number that tells it from all others. -/
structure SyncRecord (α : Type*) where
  serial : ℕ
  timeTag : ℤ
  data : List (Cell α)
  deriving DecidableEq, Repr

/-- The two records, with `_current`, and the number of records that have been allocated. -/
structure SyncWindow (α : Type*) where
  recSize : ℕ
  current : Bool := false
  records : Bool → Option (SyncRecord α) := fun _ => none
  allocated : ℕ := 0

namespace SyncWindow

/-- `_syncTime` -/
def syncTime (window : SyncWindow α) (irec : Bool) : ℤ :=
  match window.records irec with
  | some record => record.timeTag
  | none => longLongMin

/-- `SyncRecordSource::allocateRecord` -/
def allocateRecord (window : SyncWindow α) (irec : Bool) (timetag : ℤ) : SyncWindow α :=
  match window.records irec with
  | some _ => window
  | none =>
      { window with
        records := Function.update window.records irec (some
          { serial := window.allocated
            -- beginning of second
            timeTag := timetag - timetag.tmod 1000000
            data := List.replicate window.recSize .nan })
        allocated := window.allocated + 1 }

end SyncWindow

/-- The state that the operations on slots change. -/
structure SlotState (α : Type*) where
  sinfo : SyncInfo
  window : SyncWindow α

/-- `SyncRecordSource::nextRecord`; `nextRecordIndex` is the index of the other record. -/
def nextRecord (state : SlotState α) : Except SyncFault (Bool × SlotState α) :=
  let i := state.sinfo.irec
  match state.window.records i with
  | none => .error .assertion
  | some record =>
      -- already pointing to the second sync record
      if i ≠ state.window.current then .ok (false, state)
      else
        let window := state.window.allocateRecord (!i) (record.timeTag + 1000000)
        if window.syncTime (!i) - window.syncTime i ≠ 1000000 then .error .assertion
        else .ok (true, ⟨{ state.sinfo with irec := !i }, window⟩)

/-- `SyncRecordSource::prevRecord` -/
def prevRecord (state : SlotState α) : Except SyncFault (Bool × SlotState α) :=
  let n := state.sinfo.irec
  -- can't go earlier than current sync record
  if n = state.window.current then .ok (false, state)
  else
    match state.window.records (!n) with
    | none => .error .assertion
    | some _ => .ok (true, { state with sinfo := { state.sinfo with irec := !n } })

/-- `SyncInfo::checkNonIntRateIncrement`, which may call `incrementSlot` again -/
def checkNonIntRateIncrement (incrementSlot : SlotState α → Except SyncFault (Bool × SlotState α))
    (state : SlotState α) : Except SyncFault (Bool × SlotState α) :=
  if state.sinfo.rate = state.sinfo.nSlots then .ok (true, state)
  else if state.sinfo.islot = state.sinfo.nSlots - 1 then
    if state.sinfo.skipMod = 0 then .error .division
    else if state.sinfo.skipModCount.tmod state.sinfo.skipMod ≠ 0 then incrementSlot state
    -- no increment, check if we should
    else if state.sinfo.minDiff + state.sinfo.islot * state.sinfo.dtUsec ≥ 1000000 then
      incrementSlot { state with sinfo := { state.sinfo with skipModCount := 0 } }
    else .ok (true, state)
  else .ok (true, state)

/-- `SyncInfo::incrementSlot`, to a limited depth of recursion -/
def incrementSlot : ℕ → SlotState α → Except SyncFault (Bool × SlotState α)
  | 0, _ => .error .recursion
  | fuel + 1, state =>
      let islot := state.sinfo.islot + 1
      if islot = state.sinfo.nSlots then
        match nextRecord { state with sinfo := { state.sinfo with islot := islot } } with
        | .error fault => .error fault
        -- there is no next sync record
        | .ok (false, state) =>
            .ok (false, { state with
              sinfo := { state.sinfo with islot := state.sinfo.nSlots - 1 } })
        | .ok (true, state) =>
            checkNonIntRateIncrement (incrementSlot fuel) { state with
              sinfo := { state.sinfo with
                islot := 0
                skipModCount := state.sinfo.skipModCount + 1 } }
      else
        checkNonIntRateIncrement (incrementSlot fuel) { state with
          sinfo := { state.sinfo with
            islot := islot
            skipModCount := state.sinfo.skipModCount + 1 } }

/-- The depth to which `incrementSlot` calls itself. -/
def incrementDepth : ℕ := 3

/-- `SyncInfo::decrementSlot` -/
def decrementSlot (state : SlotState α) : Except SyncFault (Bool × SlotState α) :=
  let state := { state with sinfo := { state.sinfo with nLateSamp := 0 } }
  match (if state.sinfo.islot = 0 then prevRecord state else .ok (true, state)) with
  | .error fault => .error fault
  | .ok (false, state) => .ok (false, state)
  | .ok (true, state) =>
      .ok (true, { state with
        sinfo := { state.sinfo with
          islot := (if state.sinfo.islot = 0 then state.sinfo.nSlots else state.sinfo.islot) - 1
          skipModCount := state.sinfo.skipModCount - 1 } })

/-- `SyncInfo::computeSlotIndex` and `SyncRecordSource::computeSlotIndex` -/
def computeSlotIndex (tt : ℤ) (state : SlotState α) : Except SyncFault (SlotState α) :=
  match state.window.records state.sinfo.irec with
  | none => .error .assertion
  | some record =>
      match (if tt ≥ record.timeTag + 1000000 then nextRecord state else .ok (true, state)) with
      | .error fault => .error fault
      | .ok (_, state) =>
          if state.sinfo.dtUsec = 0 then .error .division
          else
            let ni := max ((tt - state.window.syncTime state.sinfo.irec).tdiv state.sinfo.dtUsec) 0
            .ok { state with
              sinfo := { state.sinfo with islot := ni, nEarlySamp := 0, nLateSamp := 0 } }

/-! ## Time tags -/

/-- The difference of the time tag from the slot time. -/
def slotDiff (tt : ℤ) (state : SlotState α) : ℤ :=
  tt - (state.window.syncTime state.sinfo.irec + state.sinfo.islot * state.sinfo.dtUsec)

/-- The part of `checkTime` for repeated early time tags. -/
def repeatedEarly (tt : ℤ) (tdiff : ℤ) (state : SlotState α) :
    Except SyncFault (Bool × ℤ × SlotState α) :=
  if -tdiff > 2000 then
    let state := { state with
      sinfo := { state.sinfo with nEarlySamp := state.sinfo.nEarlySamp + 1 } }
    if state.sinfo.nEarlySamp > state.sinfo.outOfSlotMax ∧
        (state.sinfo.islot = 1 ∨ state.sinfo.nSlots = 1) then
      match decrementSlot state with
      | .error fault => .error fault
      | .ok (ret, state) =>
          let tdiff := if state.sinfo.islot = 0 then slotDiff tt state else tdiff
          .ok (ret, tdiff, { state with
            sinfo := { state.sinfo with
              minDiff := if state.sinfo.islot = 0 then max tdiff 0 else state.sinfo.minDiff
              nEarlySamp := 0 } })
    else .ok (true, tdiff, state)
  else .ok (true, tdiff, { state with sinfo := { state.sinfo with nEarlySamp := 0 } })

/-- The part of `checkTime` for a time tag before the slot time. -/
def earlyTime (tt : ℤ) (tdiff : ℤ) (state : SlotState α) : Except SyncFault (Bool × SlotState α) :=
  let state := { state with sinfo := { state.sinfo with minDiff := 0, nLateSamp := 0 } }
  match repeatedEarly tt tdiff state with
  | .error fault => .error fault
  | .ok (ret, tdiff, state) =>
      -- timetag is earlier than slot time by more than 1/2 sample dt
      if -tdiff > state.sinfo.dtUsec.tdiv 2 then
        match decrementSlot state with
        | .error fault => .error fault
        | .ok (done, state) => .ok (ret && done, state)
      else .ok (ret, state)

/-- Increment the slot a number of times, or until there is no next sync record. -/
def incrementSlots : ℕ → SlotState α → Except SyncFault (SlotState α)
  | 0, state => .ok state
  | count + 1, state =>
      match incrementSlot incrementDepth state with
      | .error fault => .error fault
      | .ok (false, state) => .ok state
      | .ok (true, state) => incrementSlots count state

/-- The bookkeeping of `checkTime` after slots have been skipped. -/
def afterSkip (tt : ℤ) (state : SlotState α) : SlotState α :=
  let tdiff := slotDiff tt state
  { state with
    sinfo := { state.sinfo with
      minDiff := min state.sinfo.minDiff tdiff
      nLateSamp := if tdiff < 2000 then 0 else state.sinfo.nLateSamp } }

/-- The part of `checkTime` for repeated late time tags. -/
def repeatedLate (tt : ℤ) (tdiff : ℤ) (state : SlotState α) :
    Except SyncFault (ℤ × SlotState α) :=
  let state := { state with sinfo := { state.sinfo with nLateSamp := state.sinfo.nLateSamp + 1 } }
  if state.sinfo.nLateSamp > state.sinfo.outOfSlotMax then
    match incrementSlot incrementDepth state with
    | .error fault => .error fault
    | .ok (_, state) => .ok (slotDiff tt state, afterSkip tt state)
  else .ok (tdiff, state)

/-- The part of `checkTime` for a time tag that is not far behind the slot time. -/
def lateTime (tt : ℤ) (tdiff : ℤ) (state : SlotState α) : Except SyncFault (SlotState α) :=
  let state := { state with sinfo := { state.sinfo with nEarlySamp := 0 } }
  if tdiff > state.sinfo.dtUsec + 2000 then
    match repeatedLate tt tdiff state with
    | .error fault => .error fault
    | .ok (tdiff, state) =>
        let ni := tdiff.tdiv state.sinfo.dtUsec
        if ni > 1 then
          match incrementSlots ni.toNat state with
          | .error fault => .error fault
          | .ok state => .ok (afterSkip tt state)
        else .ok state
  else
    .ok { state with
      sinfo := { state.sinfo with nLateSamp := 0, minDiff := min state.sinfo.minDiff tdiff } }

/-- The minimum difference is computed over the slots of a record. -/
def SyncInfo.restartMinDiff (sinfo : SyncInfo) : SyncInfo :=
  { sinfo with minDiff := if sinfo.islot = 0 then sinfo.minDiffInit else sinfo.minDiff }

/-- `SyncRecordSource::checkTime` -/
def checkTime (tt : ℤ) (state : SlotState α) : Except SyncFault (Bool × SlotState α) :=
  let state := { state with sinfo := state.sinfo.restartMinDiff }
  match state.window.records state.sinfo.irec with
  -- the difference with the time of no record
  | none => .error .stale
  | some _ =>
      let tdiff := slotDiff tt state
      if tdiff < 0 then earlyTime tt tdiff state
      -- the product is of type int
      else if tdiff > min ((2 * state.sinfo.dtUsec).bmod (2 ^ 32)) 1000000 then
        match computeSlotIndex tt state with
        | .error fault => .error fault
        | .ok state => .ok (true, state)
      else
        match lateTime tt tdiff state with
        | .error fault => .error fault
        | .ok state => .ok (true, state)

/-! ## Copying -/

/-- Store values into a record from an index on. -/
def storeAt (index : ℕ) (values : List (Cell α)) (data : List (Cell α)) : List (Cell α) :=
  data.take index ++ values ++ data.drop (index + values.length)

/-- `copy_variables_to_record`, over the variables -/
def copyVariablesToRecord (recSize : ℕ) (timeIndex : ℕ) :
    List ℕ → List ℕ → List α → List (Cell α) → Except SyncFault (List (Cell α))
  | varSRIndex :: indices, outlen :: lengths, values, data =>
      if values = [] then .ok data
      else
        let inlen := min values.length outlen
        let dp := varSRIndex + outlen * timeIndex
        if dp + inlen ≤ recSize then
          copyVariablesToRecord recSize timeIndex indices lengths (values.drop inlen)
            (storeAt dp ((values.take inlen).map .value) data)
        else .error .assertion
  | _, _, _, data => .ok data

/-- A sample for the sync record: its data values, which are of one of the types that `receive`
copies, or of another one. -/
structure SyncSample (α : Type*) where
  id : ℕ
  timeTag : ℤ
  copied : Bool := true
  data : List α
  deriving DecidableEq, Repr

/-- The end of `receive`: the assertions, the time offset and the variables. -/
def storeSample (samp : SyncSample α) (state : SlotState α) : Except SyncFault (SyncWindow α) :=
  let sinfo := state.sinfo
  if 0 ≤ sinfo.islot ∧ sinfo.islot < sinfo.nSlots ∧ sinfo.sampleSRIndex < state.window.recSize then
    match state.window.records sinfo.irec with
    -- the data pointer is that of a record that has been distributed
    | none => .error .stale
    | some record =>
        let data := record.data.set sinfo.sampleSRIndex (.offset sinfo.minDiff)
        match (if samp.copied then
          copyVariablesToRecord state.window.recSize sinfo.islot.toNat sinfo.varSRIndex
            sinfo.varLengths samp.data data else .ok data) with
        | .error fault => .error fault
        | .ok data =>
            .ok { state.window with
              records := Function.update state.window.records sinfo.irec
                (some { record with data := data }) }
  else .error .assertion

/-! ## The source -/

/-- The members of a `SyncRecordSource`, and the records that have been distributed. -/
structure SyncSource (α : Type*) where
  infos : List SyncInfo
  halfMaxUsecsPerSample : ℤ
  window : SyncWindow α
  distributed : List (SyncRecord α) := []

namespace SyncSource

/-- `SyncRecordSource::init`, for the selected variables.  `INT_MIN` is the least value of
`_halfMaxUsecsPerSample`. -/
def init (vars : List TaggedVariable) : Except SyncFault (SyncSource α) :=
  match addVariables vars [] (-intLimit) with
  | .error fault => .error fault
  | .ok (infos, half) =>
      let laidOut := layOut 0 infos
      .ok
        { infos := laidOut.1
          halfMaxUsecsPerSample := half
          window := { recSize := laidOut.2 } }

/-- `SyncRecordSource::sendSyncRecord` -/
def sendSyncRecord (source : SyncSource α) : SyncSource α :=
  match source.window.records source.window.current with
  | none => source
  | some record =>
      { source with
        window := { source.window with
          records := Function.update source.window.records source.window.current none }
        distributed := source.distributed ++ [record] }

/-- `_current = nextRecordIndex(_current)` -/
def nextCurrent (source : SyncSource α) : SyncSource α :=
  { source with window := { source.window with current := !source.window.current } }

/-- `SyncInfo::advanceRecord` -/
def advanceInfo (last : Bool) (sinfo : SyncInfo) : SyncInfo :=
  if sinfo.irec = last then { sinfo with irec := !last, islot := -1 } else sinfo

/-- `SyncRecordSource::advanceRecord` -/
def advanceRecord (source : SyncSource α) (timetag : ℤ) : SyncSource α :=
  let last := source.window.current
  let source := source.sendSyncRecord.nextCurrent
  { source with
    window := source.window.allocateRecord source.window.current timetag
    infos := source.infos.map (advanceInfo last) }

/-- The end of the current record, plus half the maximum sample delta-T. -/
def triggerTime (source : SyncSource α) : ℤ :=
  source.window.syncTime source.window.current + 1000000 +
    max source.halfMaxUsecsPerSample 250000

/-- Ship the records that are ready. -/
def shipRecords : ℕ → ℤ → SyncSource α → SyncSource α
  | 0, _, source => source
  | fuel + 1, tt, source =>
      if tt ≥ source.triggerTime then shipRecords fuel tt (source.advanceRecord tt) else source

/-- Put back what has been changed. -/
def put (source : SyncSource α) (state : SlotState α) : SyncSource α :=
  { source with
    window := state.window
    infos := source.infos.map fun sinfo => if sinfo.id = state.sinfo.id then state.sinfo else sinfo }

/-- The slot of a sample: restart, or the normal case increment. -/
def nextSlot (tt : ℤ) (state : SlotState α) : Except SyncFault (SlotState α) :=
  if state.sinfo.islot < 0 then computeSlotIndex tt state
  else
    match incrementSlot incrementDepth state with
    | .error fault => .error fault
    | .ok (_, state) => .ok state

/-- The last part of `receive`, when the records that are ready have been shipped. -/
def place (samp : SyncSample α) (sinfo : SyncInfo) (source : SyncSource α) :
    Except SyncFault (Bool × SyncSource α) :=
  match nextSlot samp.timeTag ⟨sinfo, source.window⟩ with
  | .error fault => .error fault
  | .ok state =>
      match checkTime samp.timeTag state with
      | .error fault => .error fault
      -- discard sample
      | .ok (false, state) => .ok (false, source.put state)
      | .ok (true, state) =>
          match storeSample samp state with
          | .error fault => .error fault
          | .ok window => .ok (true, source.put { state with window := window })

/-- The source with its current record, which is allocated if it is not there. -/
def withCurrent (source : SyncSource α) (timetag : ℤ) : SyncSource α :=
  { source with window := source.window.allocateRecord source.window.current timetag }

/-- `SyncRecordSource::receive` -/
def receive (samp : SyncSample α) (source : SyncSource α) : Except SyncFault (Bool × SyncSource α) :=
  match source.infos.find? fun sinfo => sinfo.id = samp.id with
  | none => .ok (false, source)
  | some _ =>
      -- first time
      let source := source.withCurrent samp.timeTag
      -- screen bad times
      if samp.timeTag < source.window.syncTime source.window.current then .ok (false, source)
      else
        let source := shipRecords 3 samp.timeTag source
        match source.infos.find? fun sinfo => sinfo.id = samp.id with
        | none => .ok (false, source)
        | some sinfo => place samp sinfo source

/-- `SyncRecordSource::flush` -/
def flush (source : SyncSource α) : SyncSource α :=
  source.sendSyncRecord.nextCurrent.sendSyncRecord.nextCurrent

/-- Receive one sample after the other. -/
def receiveAll : List (SyncSample α) → SyncSource α → Except SyncFault (SyncSource α)
  | [], source => .ok source
  | samp :: rest, source =>
      match source.receive samp with
      | .error fault => .error fault
      | .ok (_, source) => receiveAll rest source

end SyncSource

end Nidas.Dynld
