import Mathlib.Data.List.Chain
import Mathlib.Order.Lattice
import Nidas.Core.ScannerCalls

/-!
# Time tags increase

The three methods set a time tag at different moments, from an estimate that goes back
from the time of the read by the number of bytes.  Two estimates can overlap.  Each of
them passes through `correctTimeTag`, which moves it behind `_lastSampleTime`, unless the
clock has stepped back.

What ties the calls together is that the tag of the sample under construction lies behind
all tags returned so far and is not behind `_lastSampleTime` (`TagAhead`).  A sample may be
tagged again while it is empty; that can only move its tag ahead.
-/

namespace Nidas.Core

variable {env : ScanEnv} {params : MessageParameters}

/-! ## One call -/

/-- The last read was at the time `clock`, and the clock did not step back then. -/
def ForwardTo (clock : ℤ) (state : ScanState) : Prop :=
  state.stepBackwards = false ∧ state.lastBufferTime = clock

/-- The sample under construction has a later tag than `floor`. -/
structure TagAhead (clock floor : ℤ) (osamp : OutSample) (state : ScanState) : Prop where
  floor_lt : floor < osamp.timeTag
  le_last : osamp.timeTag ≤ state.lastSampleTime
  forward : ForwardTo clock state

/-- Between two calls: `floor` is the last tag that was returned. -/
structure TagsBehind (clock floor : ℤ) (state : ScanState) : Prop where
  floor_le : floor ≤ state.lastSampleTime
  forward : ForwardTo clock state
  ahead : ∀ osamp, state.osamp = some osamp → TagAhead clock floor osamp state

/-- What a call may return when `floor` was the last tag. -/
def TagsAfter (clock floor : ℤ) : Option Sample → ScanState → Prop
  | none, state => TagsBehind clock floor state
  | some result, state => floor < result.timeTag ∧ TagsBehind clock result.timeTag state

/-- Without a step of the clock, a tag lies behind the last one. -/
theorem correctTimeTag_forward {clock : ℤ} (ttag : ℤ) {state : ScanState}
    (hforward : ForwardTo clock state) :
    state.lastSampleTime < (correctTimeTag ttag state).1 ∧
      (correctTimeTag ttag state).2.lastSampleTime = (correctTimeTag ttag state).1 ∧
      ForwardTo clock (correctTimeTag ttag state).2 := by
  unfold correctTimeTag
  split_ifs with hle hstep
  · rw [hforward.1] at hstep
    cases hstep
  · exact ⟨Int.lt_succ _, rfl, hforward⟩
  · exact ⟨not_le.mp hle, rfl, hforward⟩

theorem adjustSampleLengthAlloc_times {clock : ℤ} (read : ℕ) (state : ScanState) :
    (adjustSampleLengthAlloc read state).lastSampleTime = state.lastSampleTime ∧
      (ForwardTo clock state → ForwardTo clock (adjustSampleLengthAlloc read state)) := by
  unfold adjustSampleLengthAlloc
  split_ifs <;> exact ⟨rfl, id⟩

theorem TagAhead.pause {clock floor : ℤ} {osamp : OutSample} {state after : ScanState}
    (h : TagAhead clock floor osamp state) (hosamp : after.osamp = some osamp)
    (hlast : after.lastSampleTime = state.lastSampleTime) (hforward : ForwardTo clock after) : TagsBehind clock floor after where
  floor_le := hlast ▸ le_trans h.floor_lt.le h.le_last
  forward := hforward
  ahead := by
    intro other hother
    rw [hosamp] at hother
    cases hother
    exact ⟨h.floor_lt, hlast ▸ h.le_last, hforward⟩

/-- The sample is handed on, and there is none under construction. -/
theorem TagAhead.handOn {clock floor : ℤ} {osamp : OutSample} {state after : ScanState} {result : Sample}
    (h : TagAhead clock floor osamp state) (htag : result.timeTag = osamp.timeTag)
    (hosamp : after.osamp = none) (hlast : after.lastSampleTime = state.lastSampleTime)
    (hforward : ForwardTo clock after) :
    TagsAfter clock floor (some result) after := by
  refine ⟨htag ▸ h.floor_lt, ?_, hforward, ?_⟩
  · rw [htag, hlast]
    exact h.le_last
  · intro other hother
    rw [hosamp] at hother
    cases hother

theorem TagAhead.full {clock floor : ℤ} {nc : ℕ} {osamp : OutSample} {state after : ScanState}
    {result : Sample} (h : TagAhead clock floor osamp state)
    (hfull : checkRoom env params nc osamp state = .full result after) :
    TagsAfter clock floor (some result) after := by
  obtain ⟨-, rfl, rfl⟩ := checkRoom_full hfull
  exact h.handOn rfl rfl rfl h.forward

theorem TagAhead.room {clock floor : ℤ} {nc : ℕ} {osamp osamp' : OutSample} {state state' : ScanState}
    (h : TagAhead clock floor osamp state)
    (hroom : checkRoom env params nc osamp state = .room osamp' state') :
    TagAhead clock floor osamp' state' := by
  obtain ⟨-, ⟨_, rfl⟩, _, rfl⟩ := checkRoom_room hroom
  exact ⟨h.floor_lt, h.le_last, h.forward⟩

theorem TagAhead.ship {clock floor : ℤ} {osamp : OutSample} {state : ScanState}
    (h : TagAhead clock floor osamp state) (hosamp : state.osamp = none) :
    TagsAfter clock floor (some (shipSample env params osamp state).1)
      (shipSample env params osamp state).2 := by
  obtain ⟨hlast, hforward⟩ := @adjustSampleLengthAlloc_times clock (params.terminate osamp.data).length
    { state with sampleLengths := (params.terminate osamp.data).length :: state.sampleLengths }
  refine h.handOn rfl ?_ hlast (hforward h.forward)
  exact (adjustSampleLengthAlloc_osamp _ _).trans hosamp

/-- A separator is complete: what comes before it keeps its tag, and the new tag lies
behind that. -/
theorem bomFound_tags {clock floor : ℤ} {osamp osamp' : OutSample} {state state' : ScanState}
    {result : Option Sample}
    (hfound : bomFound env params osamp state = (result, osamp', state'))
    (h : TagAhead clock floor osamp state) :
    (result = none ∧ TagAhead clock floor osamp' state') ∨
      ∃ sample, result = some sample ∧ floor < sample.timeTag ∧
        TagAhead clock sample.timeTag osamp' state' := by
  unfold bomFound shipSample Nidas.Core.handOn getCharSample at hfound
  dsimp only at hfound
  split_ifs at hfound with hdata
  · -- the sample in front of the separator is handed on
    generalize hshipped : adjustSampleLengthAlloc _ _ = shipped at hfound
    have htimes := @adjustSampleLengthAlloc_times clock (params.terminate osamp.data).length
      { state with sampleLengths := (params.terminate osamp.data).length :: state.sampleLengths }
    rw [hshipped] at htimes
    obtain ⟨hlt, hlast, hforward⟩ := @correctTimeTag_forward clock shipped.bomtt
      { shipped with poolCalls := shipped.poolCalls + 1 } (htimes.2 h.forward)
    cases hfound
    refine .inr ⟨_, rfl, h.floor_lt, ?_, hlast.ge, hforward⟩
    exact lt_of_le_of_lt h.le_last (htimes.1 ▸ hlt)
  · obtain ⟨hlt, hlast, hforward⟩ := correctTimeTag_forward state.bomtt h.forward
    cases hfound
    refine .inl ⟨rfl, ?_, hlast.ge, hforward⟩
    exact lt_trans h.floor_lt (lt_of_le_of_lt h.le_last hlt)

theorem eomRule_tags (clock floor : ℤ) :
    EomRule env params (TagAhead clock floor) (TagsAfter clock floor) where
  pause h _ := h.pause rfl rfl h.forward
  full h hfull := h.full hfull
  room h hroom := h.room hroom
  copy h _ _ := ⟨h.floor_lt, h.le_last, h.forward⟩
  char _ h _ _ := ⟨h.floor_lt, h.le_last, h.forward⟩
  ship _ h _ _ := TagAhead.ship ⟨h.floor_lt, h.le_last, h.forward⟩ rfl

theorem bomRule_tags (clock floor : ℤ) :
    BomRule env params (TagAhead clock floor) (TagAhead clock floor) (TagsAfter clock floor) where
  pause h := h.pause rfl rfl h.forward
  full h hfull := h.full hfull
  room h hroom := h.room hroom
  copyPause h := h.pause rfl rfl h.forward
  copyFull h hfull := h.full hfull
  copyRoom h _ hroom :=
    ⟨(h.room hroom).floor_lt, (h.room hroom).le_last, (h.room hroom).forward⟩
  search h := ⟨h.floor_lt, h.le_last, h.forward⟩
  char _ h _ _ _ _ := ⟨h.floor_lt, h.le_last, h.forward⟩
  found _ h _ _ _ hfound := by
    obtain ⟨hnone, -⟩ | ⟨_, ⟨⟩, hlt, hahead⟩ :=
      bomFound_tags hfound ⟨h.floor_lt, h.le_last, h.forward⟩
    · cases hnone
    · exact ⟨hlt, hahead.pause rfl rfl hahead.forward⟩
  first _ h _ _ _ hfound := by
    obtain ⟨-, hahead⟩ | ⟨_, hsome, -⟩ :=
      bomFound_tags hfound ⟨h.floor_lt, h.le_last, h.forward⟩
    · exact hahead
    · cases hsome
  giveUp h _ := ⟨h.floor_lt, h.le_last, h.forward⟩
  data h _ _ := ⟨h.floor_lt, h.le_last, h.forward⟩

/-- A new sample gets a tag behind the last one. -/
theorem TagsBehind.openSample {clock floor : ℤ} {state : ScanState} (h : TagsBehind clock floor state) :
    TagAhead clock floor (openSample env state).1 (openSample env state).2 := by
  obtain ⟨hlt, hlast, hforward⟩ :=
    correctTimeTag_forward (state.tfirstchar + state.buftail * env.usecsPerByte) h.forward
  exact ⟨lt_of_le_of_lt h.floor_le hlt, hlast.ge, hforward⟩

/-! ## Messages of a fixed length -/

/-- An empty sample is tagged anew, whatever tag it had; another one keeps its tag. -/
theorem byLengthTag_ahead {clock floor : ℤ} {osamp : OutSample} {state : ScanState}
    (hfloor : floor ≤ state.lastSampleTime) (hforward : ForwardTo clock state)
    (h : osamp.data ≠ [] → TagAhead clock floor osamp state) :
    TagAhead clock floor (byLengthTag env osamp state).1 (byLengthTag env osamp state).2 := by
  unfold byLengthTag
  split_ifs with hdata
  · obtain ⟨hlt, hlast, hnext⟩ :=
      correctTimeTag_forward (state.tfirstchar + state.buftail * env.usecsPerByte) hforward
    exact ⟨lt_of_le_of_lt hfloor hlt, hlast.ge, hnext⟩
  · exact h hdata

theorem TagAhead.byLengthShip {clock floor : ℤ} {memory : ℕ → UInt8} {osamp : OutSample}
    {state : ScanState} (h : TagAhead clock floor osamp state) :
    TagsAfter clock floor (byLengthShip env params memory osamp state).1
      (byLengthShip env params memory osamp state).2 := by
  unfold Nidas.Core.byLengthShip
  split_ifs with hlength
  · exact h.handOn rfl rfl rfl h.forward
  · exact h.pause rfl rfl h.forward

theorem byLengthBody_tags {clock floor : ℤ} {memory : ℕ → UInt8} {osamp : OutSample} {state : ScanState}
    (hfloor : floor ≤ state.lastSampleTime) (hforward : ForwardTo clock state)
    (h : osamp.data ≠ [] → TagAhead clock floor osamp state) :
    TagsAfter clock floor (byLengthBody env params memory osamp state).1
      (byLengthBody env params memory osamp state).2 := by
  have htagged := @byLengthTag_ahead env clock floor osamp state hfloor hforward h
  unfold byLengthBody
  generalize byLengthTag env osamp state = tagged at htagged ⊢
  obtain ⟨osamp, state⟩ := tagged
  dsimp only at htagged ⊢
  generalize min state.bytes.length (params.messageLength - osamp.data.length).toNat = nc
  split_ifs with hnc
  · cases hroom : checkRoom env params nc osamp state with
    | full result after => exact htagged.full hroom
    | room osamp' state' =>
      obtain ⟨hlt, hle, hstep⟩ := htagged.room hroom
      exact TagAhead.byLengthShip ⟨hlt, hle, hstep⟩
  · exact htagged.byLengthShip

/-! ## Any sequence of calls -/

/-- Every method of the scanner returns a later tag than the last one. -/
theorem nextSample_tags {clock floor : ℤ} (memory : ℕ → UInt8) {state : ScanState}
    (h : TagsBehind clock floor state) :
    TagsAfter clock floor (nextSample env params memory state).1
      (nextSample env params memory state).2 := by
  unfold nextSample
  cases params.nextSampleFunc with
  | sepEOM => exact (eomRule_tags clock floor).call (fun _ => h.openSample) h.ahead (fun _ => h)
  | sepBOM =>
    exact (bomRule_tags clock floor).call (fun _ _ => h.openSample) (fun _ _ => h.openSample)
      (fun osamp hosamp _ => h.ahead osamp hosamp) (fun osamp hosamp _ => h.ahead osamp hosamp)
      (fun _ _ => h)
  | byLength =>
    unfold nextSampleByLength
    cases hosamp : state.osamp with
    | none => exact byLengthBody_tags h.floor_le h.forward (fun hdata => absurd rfl hdata)
    | some osamp => exact byLengthBody_tags h.floor_le h.forward (fun _ => h.ahead osamp hosamp)

theorem TagsBehind.readBuffer {clock floor : ℤ} {state : ScanState}
    (h : TagsBehind clock floor state) {sensor : SensorRead} (bufsize : ℕ)
    (htime : clock ≤ sensor.time) :
    TagsBehind sensor.time floor (readBuffer env bufsize sensor state) := by
  have hforward : ForwardTo sensor.time (Nidas.Core.readBuffer env bufsize sensor state) := by
    refine ⟨decide_eq_false (not_lt.mpr ?_), rfl⟩
    rw [h.forward.2]
    exact htime
  refine ⟨h.floor_le, hforward, fun osamp hosamp => ?_⟩
  obtain ⟨hlt, hle, -⟩ := h.ahead osamp hosamp
  exact ⟨hlt, hle, hforward⟩

/-- The system times that the calls read. -/
def readTimes : List ScanCall → List ℤ
  | [] => []
  | .readBuffer sensor :: calls => sensor.time :: readTimes calls
  | .nextSample :: calls => readTimes calls

/-- From any state between two calls: the tags to come lie behind the last one and
increase. -/
theorem scanCalls_tags {clock floor : ℤ} (memory : ℕ → UInt8) (bufsize : ℕ) (calls : List ScanCall)
    {state : ScanState} (h : TagsBehind clock floor state)
    (hclock : (clock :: readTimes calls).IsChain (· ≤ ·)) :
    (floor :: (scanCalls env params memory bufsize calls state).1.map Sample.timeTag).IsChain
      (· < ·) := by
  induction calls generalizing clock floor state with
  | nil => exact List.isChain_singleton floor
  | cons call calls ih =>
    cases call with
    | readBuffer sensor =>
      obtain ⟨htime, hrest⟩ := List.isChain_cons_cons.mp hclock
      exact ih (h.readBuffer bufsize htime) hrest
    | nextSample =>
      have hnext := @nextSample_tags env params clock floor memory state h
      unfold scanCalls scanCall
      dsimp only
      generalize nextSample env params memory state = answer at hnext ⊢
      obtain ⟨_ | result, after⟩ := answer
      · exact ih hnext hclock
      · exact List.isChain_cons_cons.mpr ⟨hnext.1, ih hnext.2 hclock⟩

/-- **Time tags increase.**  Whatever the framing, the bytes and the order of the calls, as
long as the system time that `readBuffer` reads does not go back, the samples have strictly
increasing time tags. -/
theorem scanCalls_timeTags_increase (memory : ℕ → UInt8) (bufsize : ℕ) (calls : List ScanCall)
    (hclock : (longLongMin :: readTimes calls).IsChain (· ≤ ·)) :
    ((scanCalls env params memory bufsize calls (ScanState.start params)).1.map
      Sample.timeTag).Pairwise (· < ·) := by
  have hstart : TagsBehind longLongMin longLongMin (ScanState.start params) := by
    refine ⟨le_rfl, ⟨rfl, rfl⟩, fun osamp hosamp => ?_⟩
    cases hosamp
  exact (scanCalls_tags memory bufsize calls hstart hclock).pairwise.tail

/-- Two buffers read at the same time: the second one's estimate overlaps the first. -/
theorem scanCalls_timeTags_increase_sameTime :
    (longLongMin :: readTimes
        [.readBuffer ⟨[97, 10, 98, 10], 100000⟩, .nextSample, .nextSample,
          .readBuffer ⟨[99, 10], 100000⟩, .nextSample]).IsChain (· ≤ ·) ∧
      ((scanCalls ⟨1, 1000, exactPool⟩ (acceptedParameters 0 [10] true false) (fun _ => 0) 64
        [.readBuffer ⟨[97, 10, 98, 10], 100000⟩, .nextSample, .nextSample,
          .readBuffer ⟨[99, 10], 100000⟩, .nextSample]
        (ScanState.start (acceptedParameters 0 [10] true false))).1.map
          Sample.timeTag).Pairwise (· < ·) := by
  have hclock : (longLongMin :: readTimes
      [.readBuffer ⟨[97, 10, 98, 10], 100000⟩, .nextSample, .nextSample,
        .readBuffer ⟨[99, 10], 100000⟩, .nextSample]).IsChain (· ≤ ·) := by
    unfold longLongMin
    simp [readTimes]
  exact ⟨hclock, scanCalls_timeTags_increase (fun _ => 0) 64 _ hclock⟩

end Nidas.Core
