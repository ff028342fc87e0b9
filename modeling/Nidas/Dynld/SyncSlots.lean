import Nidas.Lib.Outcome
import Nidas.Dynld.SyncRecordSource

/-!
# The operations on slots

The slot of a sample is moved by operations that call each other.  All that any of them does to the
two records is to allocate the second one, and none of them leaves a sample in a record that is not
there (`Reached`).  Whether the slot stays in the record depends on the sample rates (`Fits`): the
slots must cover a second, and half an interval of the slowest sample.  The statements about the
operations are conditional on that, so that they hold for all rates.
-/

namespace Nidas.Dynld

open Lib

variable {α : Type*}

/-! ## Records -/

namespace SyncWindow

/-- There is a record with that index. -/
def Allocated (window : SyncWindow α) (irec : Bool) : Prop := (window.records irec).isSome

/-- The second record has been allocated by `nextRecord`. -/
def extended (window : SyncWindow α) : SyncWindow α :=
  window.allocateRecord (!window.current) (window.syncTime window.current + 1000000)

variable {window : SyncWindow α} {irec : Bool} {timetag : ℤ}

theorem Allocated.exists_record (hrecord : window.Allocated irec) :
    ∃ record, window.records irec = some record := Option.isSome_iff_exists.mp hrecord

theorem syncTime_of_records {record : SyncRecord α} (hrecord : window.records irec = some record) :
    window.syncTime irec = record.timeTag := by
  unfold syncTime
  rw [hrecord]

@[simp] theorem allocateRecord_current :
    (window.allocateRecord irec timetag).current = window.current := by
  unfold allocateRecord
  split <;> rfl

@[simp] theorem allocateRecord_recSize :
    (window.allocateRecord irec timetag).recSize = window.recSize := by
  unfold allocateRecord
  split <;> rfl

theorem allocateRecord_of_allocated (hrecord : window.Allocated irec) :
    window.allocateRecord irec timetag = window := by
  obtain ⟨record, hrecord⟩ := hrecord.exists_record
  unfold allocateRecord
  rw [hrecord]

/-- A new record. -/
def newRecord (window : SyncWindow α) (timetag : ℤ) : SyncRecord α :=
  { serial := window.allocated
    timeTag := timetag - timetag.tmod 1000000
    data := List.replicate window.recSize .nan }

theorem allocateRecord_of_none (hnone : window.records irec = none) :
    window.allocateRecord irec timetag =
      { window with
        records := Function.update window.records irec (some (window.newRecord timetag))
        allocated := window.allocated + 1 } := by
  unfold allocateRecord
  rw [hnone]
  rfl

theorem allocated_allocateRecord : (window.allocateRecord irec timetag).Allocated irec := by
  unfold Allocated
  cases hrecord : window.records irec with
  | none => simp [allocateRecord_of_none hrecord]
  | some record => simp [allocateRecord, hrecord]

theorem records_allocateRecord_of_ne {other : Bool} (hne : other ≠ irec) :
    (window.allocateRecord irec timetag).records other = window.records other := by
  cases hrecord : window.records irec with
  | none => simp [allocateRecord_of_none hrecord, hne]
  | some record => simp [allocateRecord, hrecord]

/-- An allocation leaves the records that are there alone. -/
theorem records_allocateRecord_of_some {other : Bool} {record : SyncRecord α}
    (hrecord : window.records other = some record) :
    (window.allocateRecord irec timetag).records other = some record := by
  by_cases hother : other = irec
  · subst other
    rwa [allocateRecord_of_allocated (by simp [Allocated, hrecord])]
  · rwa [records_allocateRecord_of_ne hother]

theorem Allocated.allocateRecord {other : Bool} (hrecord : window.Allocated other) :
    (window.allocateRecord irec timetag).Allocated other := by
  obtain ⟨record, hrecord⟩ := hrecord.exists_record
  rw [Allocated, records_allocateRecord_of_some hrecord]
  rfl

theorem records_extended_current (window : SyncWindow α) :
    window.extended.records window.current = window.records window.current :=
  records_allocateRecord_of_ne (by simp)

theorem newRecord_whole (window : SyncWindow α) (timetag : ℤ) :
    (1000000 : ℤ) ∣ (window.newRecord timetag).timeTag := by
  refine ⟨timetag.tdiv 1000000, ?_⟩
  have hmod := Int.mul_tdiv_add_tmod timetag 1000000
  simp only [newRecord]
  omega

/-- The records after an allocation: those before it, and perhaps a new one. -/
theorem of_records_allocateRecord {other : Bool} {record : SyncRecord α}
    (hrecord : (window.allocateRecord irec timetag).records other = some record) :
    window.records other = some record ∨
      other = irec ∧ window.records irec = none ∧ record = window.newRecord timetag := by
  by_cases hother : other = irec
  · subst other
    cases hold : window.records irec with
    | none =>
        right
        rw [allocateRecord_of_none hold] at hrecord
        simp only [Function.update_self, Option.some.injEq] at hrecord
        exact ⟨rfl, rfl, hrecord.symm⟩
    | some old =>
        left
        rwa [records_allocateRecord_of_some hold] at hrecord
  · left
    rwa [records_allocateRecord_of_ne hother] at hrecord

/-- The records are of the right size and begin with a second, and the second one is that of the
next second. -/
structure Inv (window : SyncWindow α) : Prop where
  whole : ∀ irec record, window.records irec = some record → (1000000 : ℤ) ∣ record.timeTag
  sized : ∀ irec record, window.records irec = some record →
    record.data.length = window.recSize
  apart : ∀ record, window.records (!window.current) = some record →
    window.Allocated window.current ∧
      record.timeTag = window.syncTime window.current + 1000000

namespace Inv

variable (hinv : window.Inv)

include hinv

theorem whole_allocateRecord (other : Bool) (record : SyncRecord α)
    (hrecord : (window.allocateRecord irec timetag).records other = some record) :
    (1000000 : ℤ) ∣ record.timeTag := by
  obtain hold | ⟨-, -, rfl⟩ := of_records_allocateRecord hrecord
  · exact hinv.whole other record hold
  · exact newRecord_whole window timetag

theorem sized_allocateRecord (other : Bool) (record : SyncRecord α)
    (hrecord : (window.allocateRecord irec timetag).records other = some record) :
    record.data.length = (window.allocateRecord irec timetag).recSize := by
  rw [allocateRecord_recSize]
  obtain hold | ⟨-, -, rfl⟩ := of_records_allocateRecord hrecord
  · exact hinv.sized other record hold
  · simp [newRecord]

/-- The first allocation, of the current record. -/
theorem allocateRecord_current : (window.allocateRecord window.current timetag).Inv where
  whole := hinv.whole_allocateRecord
  sized := hinv.sized_allocateRecord
  apart record hrecord := by
    rw [SyncWindow.allocateRecord_current,
      records_allocateRecord_of_ne (by simp)] at hrecord
    obtain ⟨hcur, htime⟩ := hinv.apart record hrecord
    rw [allocateRecord_of_allocated hcur]
    exact ⟨hcur, htime⟩

theorem whole_syncTime (hcur : window.Allocated irec) : (1000000 : ℤ) ∣ window.syncTime irec := by
  obtain ⟨record, hrecord⟩ := hcur.exists_record
  rw [syncTime_of_records hrecord]
  exact hinv.whole irec record hrecord

variable (hcur : window.Allocated window.current)

include hcur

theorem newRecord_timeTag : (window.newRecord (window.syncTime window.current + 1000000)).timeTag =
    window.syncTime window.current + 1000000 := by
  have hdvd : (1000000 : ℤ) ∣ window.syncTime window.current + 1000000 :=
    (hinv.whole_syncTime hcur).add (dvd_refl _)
  simp only [newRecord]
  rw [Int.tmod_eq_zero_of_dvd hdvd, sub_zero]

theorem extended : window.extended.Inv where
  whole := hinv.whole_allocateRecord
  sized := hinv.sized_allocateRecord
  apart record hrecord := by
    have hcurrent : window.extended.current = window.current := SyncWindow.allocateRecord_current
    have hsame := records_extended_current window
    have htime : window.extended.syncTime window.current = window.syncTime window.current := by
      unfold syncTime
      rw [hsame]
    rw [hcurrent] at hrecord ⊢
    rw [htime, Allocated, hsame]
    refine ⟨hcur, ?_⟩
    obtain hold | ⟨-, -, rfl⟩ := of_records_allocateRecord hrecord
    · exact (hinv.apart record hold).2
    · exact hinv.newRecord_timeTag hcur

/-- The time of the second record. -/
theorem syncTime_extended :
    window.extended.syncTime (!window.current) = window.syncTime window.current + 1000000 := by
  have hallocated : window.extended.Allocated (!window.current) := allocated_allocateRecord
  obtain ⟨record, hrecord⟩ := hallocated.exists_record
  rw [syncTime_of_records hrecord]
  obtain hold | ⟨-, -, rfl⟩ := of_records_allocateRecord hrecord
  · exact (hinv.apart record hold).2
  · exact hinv.newRecord_timeTag hcur

end Inv

end SyncWindow

/-! ## States that are reached -/

namespace SyncInfo

/-- What the operations on slots leave as it is. -/
def fixed (sinfo : SyncInfo) : SyncInfo :=
  { sinfo with
    islot := -1
    irec := false
    minDiff := 0
    skipModCount := 0
    nEarlySamp := 0
    nLateSamp := 0 }

/-- The slots of the sample cover a second, and `half` microseconds. -/
structure Fits (half : ℤ) (sinfo : SyncInfo) : Prop where
  dtUsec_pos : 0 < sinfo.dtUsec
  skipMod_ne : sinfo.skipMod ≠ 0
  second_le : 1000000 ≤ sinfo.nSlots * sinfo.dtUsec
  half_le : half ≤ sinfo.nSlots * sinfo.dtUsec

/-- The slot is one of those of the sample. -/
def Within (sinfo : SyncInfo) : Prop := 0 ≤ sinfo.islot ∧ sinfo.islot < sinfo.nSlots

variable {half : ℤ} {sinfo other : SyncInfo}

theorem nSlots_of_fixed (hfixed : other.fixed = sinfo.fixed) : other.nSlots = sinfo.nSlots := by
  simpa [fixed] using congrArg nSlots hfixed

theorem dtUsec_of_fixed (hfixed : other.fixed = sinfo.fixed) : other.dtUsec = sinfo.dtUsec := by
  simpa [fixed] using congrArg dtUsec hfixed

theorem Fits.nSlots_pos (hfits : sinfo.Fits half) : 0 < sinfo.nSlots := by
  by_contra hnot
  have hle := mul_nonpos_of_nonpos_of_nonneg (not_lt.mp hnot) hfits.dtUsec_pos.le
  have := hfits.second_le
  omega

theorem Fits.of_fixed (hfits : sinfo.Fits half) (hfixed : other.fixed = sinfo.fixed) :
    other.Fits half := by
  have hdt := dtUsec_of_fixed hfixed
  have hslots := nSlots_of_fixed hfixed
  have hmod : other.skipMod = sinfo.skipMod := by simpa [fixed] using congrArg skipMod hfixed
  obtain ⟨hpos, hne, hsecond, hhalf⟩ := hfits
  exact ⟨hdt ▸ hpos, hmod ▸ hne, by rwa [hdt, hslots], by rwa [hdt, hslots]⟩

end SyncInfo

/-- What the operations on slots make of a state. -/
structure Reached (start state : SlotState α) : Prop where
  fixed : state.sinfo.fixed = start.sinfo.fixed
  window : state.window = start.window ∨ state.window = start.window.extended
  allocated : state.window.Allocated state.sinfo.irec

/-- A fault that is not the use of a record that is not there, and that rates that fit rule out. -/
def Excused (fit : Prop) (fault : SyncFault) : Prop := fault ≠ .stale ∧ ¬fit

section

variable {start state : SlotState α} (hinv : start.window.Inv)
  (hcur : start.window.Allocated start.window.current)

namespace Reached

theorem current (hreached : Reached start state) :
    state.window.current = start.window.current := by
  obtain hwindow | hwindow := hreached.window
  · rw [hwindow]
  · rw [hwindow]
    exact SyncWindow.allocateRecord_current

theorem recSize (hreached : Reached start state) :
    state.window.recSize = start.window.recSize := by
  obtain hwindow | hwindow := hreached.window
  · rw [hwindow]
  · rw [hwindow]
    exact SyncWindow.allocateRecord_recSize

theorem records_current (hreached : Reached start state) :
    state.window.records start.window.current = start.window.records start.window.current := by
  obtain hwindow | hwindow := hreached.window
  · rw [hwindow]
  · rw [hwindow, start.window.records_extended_current]

/-- The records that are there stay there. -/
theorem allocated_of (hreached : Reached start state) {irec : Bool}
    (hallocated : start.window.Allocated irec) : state.window.Allocated irec := by
  obtain hwindow | hwindow := hreached.window
  · rw [hwindow]
    exact hallocated
  · rw [hwindow]
    exact hallocated.allocateRecord

theorem syncTime_current (hreached : Reached start state) :
    state.window.syncTime start.window.current = start.window.syncTime start.window.current := by
  unfold SyncWindow.syncTime
  rw [hreached.records_current]

theorem extended (hreached : Reached start state) :
    state.window.extended = start.window.extended := by
  obtain hwindow | hwindow := hreached.window
  · rw [hwindow]
  · -- the second record is allocated already
    have hcurrent := hreached.current
    have hallocated : state.window.Allocated (!state.window.current) := by
      rw [hcurrent, hwindow]
      exact SyncWindow.allocated_allocateRecord
    rw [← hwindow]
    exact SyncWindow.allocateRecord_of_allocated hallocated

include hcur in
theorem allocated_current (hreached : Reached start state) :
    state.window.Allocated state.window.current := by
  rw [hreached.current, SyncWindow.Allocated, hreached.records_current]
  exact hcur

include hinv hcur in
theorem inv (hreached : Reached start state) : state.window.Inv := by
  obtain hwindow | hwindow := hreached.window
  · rw [hwindow]
    exact hinv
  · rw [hwindow]
    exact hinv.extended hcur

include hinv hcur in
/-- The time of the record of the sample: that of the current record, or one second later. -/
theorem syncTime (hreached : Reached start state) :
    state.sinfo.irec = start.window.current ∧
        state.window.syncTime state.sinfo.irec = start.window.syncTime start.window.current ∨
      state.sinfo.irec = !start.window.current ∧
        state.window.syncTime state.sinfo.irec =
          start.window.syncTime start.window.current + 1000000 := by
  by_cases hirec : state.sinfo.irec = start.window.current
  · left
    rw [hirec]
    exact ⟨rfl, hreached.syncTime_current⟩
  · right
    have hother : state.sinfo.irec = !start.window.current := Bool.eq_not_of_ne hirec
    obtain ⟨record, hrecord⟩ := hreached.allocated.exists_record
    refine ⟨hother, ?_⟩
    rw [SyncWindow.syncTime_of_records hrecord]
    have hapart := (hreached.inv hinv hcur).apart record (by
      rw [hreached.current, ← hother]
      exact hrecord)
    rw [hapart.2, hreached.current, hreached.syncTime_current]

end Reached

/-! ## Next and previous record -/

include hinv hcur in
/-- `nextRecord` does not fail: it goes to the second record, or it is there already. -/
theorem nextRecord_cases (hreached : Reached start state) :
    state.sinfo.irec = start.window.current ∧
        nextRecord state = .ok (true,
          ⟨{ state.sinfo with irec := !start.window.current }, start.window.extended⟩) ∨
      state.sinfo.irec = !start.window.current ∧ nextRecord state = .ok (false, state) := by
  obtain ⟨record, hrecord⟩ := hreached.allocated.exists_record
  have hinv' := hreached.inv hinv hcur
  have hcur' := hreached.allocated_current hcur
  unfold nextRecord
  dsimp only
  rw [hrecord]
  dsimp only
  by_cases hirec : state.sinfo.irec = start.window.current
  · left
    have hrec : state.sinfo.irec = state.window.current := by rw [hirec, hreached.current]
    have htime : record.timeTag = state.window.syncTime state.window.current := by
      rw [← hrec, SyncWindow.syncTime_of_records hrecord]
    have hextended : state.window.allocateRecord (!state.sinfo.irec) (record.timeTag + 1000000) =
        state.window.extended := by
      rw [hrec, htime]
      rfl
    have hfirst : state.window.extended.syncTime state.sinfo.irec =
        state.window.syncTime state.window.current := by
      unfold SyncWindow.syncTime
      rw [hrec, state.window.records_extended_current]
    refine ⟨hirec, ?_⟩
    rw [if_neg (not_not.mpr hrec), hextended, hfirst, hrec, hinv'.syncTime_extended hcur',
      if_neg (by omega), hreached.extended, hreached.current]
  · right
    have hrec : state.sinfo.irec ≠ state.window.current := by rwa [hreached.current]
    refine ⟨Bool.eq_not_of_ne hirec, ?_⟩
    rw [if_pos hrec]

include hcur in
theorem prevRecord_cases (hreached : Reached start state) :
    state.sinfo.irec = start.window.current ∧ prevRecord state = .ok (false, state) ∨
      state.sinfo.irec = !start.window.current ∧ prevRecord state =
        .ok (true, { state with sinfo := { state.sinfo with irec := start.window.current } }) := by
  obtain ⟨record, hrecord⟩ := (hreached.allocated_current hcur).exists_record
  unfold prevRecord
  dsimp only
  by_cases hirec : state.sinfo.irec = start.window.current
  · left
    refine ⟨hirec, ?_⟩
    rw [if_pos (by rw [hirec, hreached.current])]
  · right
    have hother := Bool.eq_not_of_ne hirec
    have hnot : (!state.sinfo.irec) = state.window.current := by
      rw [hother, Bool.not_not, hreached.current]
    refine ⟨hother, ?_⟩
    rw [if_neg (by rwa [hreached.current]), hnot, hrecord, hreached.current]

/-! ## Increment and decrement -/

/-- A state that is reached, with the slot in the record if the rates fit. -/
def Kept (fit : Prop) (start state : SlotState α) : Prop :=
  Reached start state ∧ (fit → state.sinfo.Within)

variable {fit : Prop} {half : ℤ} (hfits : fit → start.sinfo.Fits half)

theorem Kept.of_eq {other : SlotState α} (hkept : Kept fit start state)
    (hfixed : other.sinfo.fixed = state.sinfo.fixed) (hislot : other.sinfo.islot = state.sinfo.islot)
    (hirec : other.sinfo.irec = state.sinfo.irec) (hwindow : other.window = state.window) :
    Kept fit start other := by
  refine ⟨⟨hfixed.trans hkept.1.fixed, by rw [hwindow]; exact hkept.1.window, ?_⟩, ?_⟩
  · rw [hwindow, hirec]
    exact hkept.1.allocated
  · intro hfit
    have hwithin := hkept.2 hfit
    unfold SyncInfo.Within at hwithin ⊢
    rwa [hislot, SyncInfo.nSlots_of_fixed hfixed]

/-- The calls that are left suffice: two do, and one does in the last slot, unless that is the first
slot of the current record too. -/
def DeepEnough (start : SlotState α) (fuel : ℕ) (state : SlotState α) : Prop :=
  2 ≤ fuel ∨ 1 ≤ fuel ∧ state.sinfo.islot = state.sinfo.nSlots - 1 ∧
    (state.sinfo.irec = !start.window.current ∨ 2 ≤ state.sinfo.nSlots)

include hfits in
theorem checkNonIntRateIncrement_outcome
    {increment : SlotState α → Except SyncFault (Bool × SlotState α)}
    (hkept : Kept fit start state)
    (hincrement : ∀ next, Kept fit start next →
      (next.sinfo.islot = state.sinfo.islot ∧ next.sinfo.islot = next.sinfo.nSlots - 1 ∧
        next.sinfo.irec = state.sinfo.irec ∧ next.sinfo.nSlots = state.sinfo.nSlots) →
      Outcome (fun r => Kept fit start r.2) (Excused fit) (increment next)) :
    Outcome (fun r => Kept fit start r.2) (Excused fit)
      (checkNonIntRateIncrement increment state) := by
  unfold checkNonIntRateIncrement
  split
  · exact hkept
  · split
    · next hlast =>
        split
        · next hzero =>
            refine ⟨by simp, fun hfit => ?_⟩
            exact ((hfits hfit).of_fixed hkept.1.fixed).skipMod_ne hzero
        · split
          · exact hincrement state hkept ⟨rfl, hlast, rfl, rfl⟩
          · split
            · exact hincrement _ (hkept.of_eq rfl rfl rfl rfl) ⟨rfl, hlast, rfl, rfl⟩
            · exact hkept
    · exact hkept

include hinv hcur hfits in
theorem incrementSlot_outcome {fuel : ℕ} (hkept : Kept fit start state)
    (hdeep : fit → DeepEnough start fuel state) :
    Outcome (fun r => Kept fit start r.2) (Excused fit) (incrementSlot fuel state) := by
  induction fuel generalizing state with
  | zero =>
      refine ⟨by simp, fun hfit => ?_⟩
      obtain htwo | ⟨hone, -⟩ := hdeep hfit
      · omega
      · omega
  | succ fuel ih =>
      have hpos : fit → 0 < state.sinfo.nSlots := fun hfit =>
        ((hfits hfit).of_fixed hkept.1.fixed).nSlots_pos
      unfold incrementSlot
      dsimp only
      split
      · next hend =>
          -- the last slot of a record
          have hreached : Reached start { state with
              sinfo := { state.sinfo with islot := state.sinfo.islot + 1 } } :=
            ⟨hkept.1.fixed, hkept.1.window, hkept.1.allocated⟩
          obtain ⟨hirec, hnext⟩ | ⟨hirec, hnext⟩ := nextRecord_cases hinv hcur hreached
          · rw [hnext]
            apply checkNonIntRateIncrement_outcome hfits
            · refine ⟨⟨hkept.1.fixed, .inr rfl, SyncWindow.allocated_allocateRecord⟩, ?_⟩
              exact fun hfit => ⟨le_refl 0, hpos hfit⟩
            · rintro next hnextKept ⟨hislot, hlast, hirec', hslots⟩
              refine ih hnextKept fun hfit => ?_
              dsimp only at hislot hirec' hslots hirec
              obtain htwo | ⟨-, -, hother | htwo⟩ := hdeep hfit
              · exact .inr ⟨by omega, hlast, .inl hirec'⟩
              · simp [hirec] at hother
              · omega
          · rw [hnext]
            refine ⟨⟨hkept.1.fixed, hkept.1.window, hkept.1.allocated⟩, fun hfit => ?_⟩
            have := hpos hfit
            constructor <;> dsimp only <;> omega
      · next hend =>
          apply checkNonIntRateIncrement_outcome hfits
          · refine ⟨⟨hkept.1.fixed, hkept.1.window, hkept.1.allocated⟩, fun hfit => ?_⟩
            have hwithin := hkept.2 hfit
            unfold SyncInfo.Within at hwithin
            constructor <;> dsimp only <;> omega
          · rintro next hnextKept ⟨hislot, hlast, hirec, hslots⟩
            refine ih hnextKept fun hfit => ?_
            have hwithin := hkept.2 hfit
            unfold SyncInfo.Within at hwithin
            dsimp only at hislot hslots
            refine .inr ⟨?_, hlast, .inr (by omega)⟩
            obtain htwo | ⟨-, hlast', -⟩ := hdeep hfit
            · omega
            · omega

theorem deepEnough_incrementDepth : DeepEnough start incrementDepth state := .inl (by decide)

include hcur hfits in
theorem decrementSlot_outcome (hkept : Kept fit start state) :
    Outcome (fun r => Kept fit start r.2) (Excused fit) (decrementSlot state) := by
  have hpos : fit → 0 < state.sinfo.nSlots := fun hfit =>
    ((hfits hfit).of_fixed hkept.1.fixed).nSlots_pos
  have hkept' : Kept fit start { state with sinfo := { state.sinfo with nLateSamp := 0 } } :=
    hkept.of_eq rfl rfl rfl rfl
  unfold decrementSlot
  dsimp only
  by_cases hzero : state.sinfo.islot = 0
  · rw [if_pos hzero]
    obtain ⟨hirec, hprev⟩ | ⟨hirec, hprev⟩ := prevRecord_cases hcur hkept'.1
    · rw [hprev]
      exact hkept'
    · rw [hprev]
      refine ⟨⟨hkept.1.fixed, hkept.1.window, ?_⟩, fun hfit => ?_⟩
      · exact (hkept.1.current ▸ hkept.1.allocated_current hcur :)
      · have := hpos hfit
        constructor <;> simp only [if_pos hzero] <;> omega
  · rw [if_neg hzero]
    refine ⟨⟨hkept.1.fixed, hkept.1.window, hkept.1.allocated⟩, fun hfit => ?_⟩
    have hwithin := hkept.2 hfit
    unfold SyncInfo.Within at hwithin
    constructor <;> simp only [if_neg hzero] <;> omega

/-! ## The slot of a time tag -/

/-- The time tag has not triggered the shipping of the current record. -/
def BeforeTrigger (half tt : ℤ) (window : SyncWindow α) : Prop :=
  tt < window.syncTime window.current + 1000000 + max half 250000

variable {tt : ℤ} (htt : fit → BeforeTrigger half tt start.window)

include hfits in
/-- A time tag that is less than a second, or than half an interval, behind the record. -/
theorem slot_lt (hreached : Reached start state) (hfit : fit) {usecs : ℤ}
    (hlt : usecs < max half 1000000) :
    max (usecs.tdiv state.sinfo.dtUsec) 0 < state.sinfo.nSlots := by
  have hfits' := (hfits hfit).of_fixed hreached.fixed
  refine max_lt ?_ hfits'.nSlots_pos
  by_cases hneg : usecs < 0
  · have hnonneg : 0 ≤ (-usecs).tdiv state.sinfo.dtUsec :=
      Int.tdiv_nonneg (by omega) hfits'.dtUsec_pos.le
    rw [Int.neg_tdiv] at hnonneg
    exact lt_of_le_of_lt (by omega) hfits'.nSlots_pos
  · rw [Int.tdiv_eq_ediv_of_nonneg (not_lt.mp hneg)]
    refine Int.ediv_lt_of_lt_mul hfits'.dtUsec_pos ?_
    exact lt_of_lt_of_le hlt (max_le hfits'.half_le hfits'.second_le)

/-- The last part of `computeSlotIndex`. -/
def slotOf (tt : ℤ) (state : SlotState α) : Except SyncFault (SlotState α) :=
  if state.sinfo.dtUsec = 0 then .error .division
  else
    .ok { state with
      sinfo := { state.sinfo with
        islot := max ((tt - state.window.syncTime state.sinfo.irec).tdiv state.sinfo.dtUsec) 0
        nEarlySamp := 0
        nLateSamp := 0 } }

include hfits in
theorem slotOf_outcome (hreached : Reached start state)
    (hlt : fit → tt - state.window.syncTime state.sinfo.irec < max half 1000000) :
    Outcome (Kept fit start) (Excused fit) (slotOf tt state) := by
  unfold slotOf
  split
  · next hzero =>
      refine ⟨by simp, fun hfit => ?_⟩
      have := ((hfits hfit).of_fixed hreached.fixed).dtUsec_pos
      omega
  · refine ⟨⟨hreached.fixed, hreached.window, hreached.allocated⟩, fun hfit => ?_⟩
    exact ⟨le_max_right _ _, slot_lt hfits hreached hfit (hlt hfit)⟩

include hinv hcur hfits htt in
theorem computeSlotIndex_outcome (hreached : Reached start state) :
    Outcome (Kept fit start) (Excused fit) (computeSlotIndex tt state) := by
  obtain ⟨record, hrecord⟩ := hreached.allocated.exists_record
  have htime := SyncWindow.syncTime_of_records hrecord
  unfold computeSlotIndex
  rw [hrecord]
  dsimp only
  by_cases hlater : tt ≥ record.timeTag + 1000000
  · rw [if_pos hlater]
    obtain ⟨hirec, hnext⟩ | ⟨hirec, hnext⟩ := nextRecord_cases hinv hcur hreached
    · rw [hnext]
      refine slotOf_outcome hfits
        ⟨hreached.fixed, .inr rfl, SyncWindow.allocated_allocateRecord⟩ fun hfit => ?_
      have hbefore := htt hfit
      unfold BeforeTrigger at hbefore
      dsimp only
      rw [hinv.syncTime_extended hcur]
      omega
    · rw [hnext]
      refine slotOf_outcome hfits hreached fun hfit => ?_
      have hbefore := htt hfit
      unfold BeforeTrigger at hbefore
      obtain ⟨hsame, -⟩ | ⟨-, hsync⟩ := hreached.syncTime hinv hcur
      · simp [hsame] at hirec
      · omega
  · rw [if_neg hlater]
    refine slotOf_outcome hfits hreached fun _ => ?_
    rw [htime]
    omega

/-! ## `checkTime` -/

include hinv hcur hfits in
theorem incrementSlots_outcome {count : ℕ} (hkept : Kept fit start state) :
    Outcome (Kept fit start) (Excused fit) (incrementSlots count state) := by
  induction count generalizing state with
  | zero => exact hkept
  | succ count ih =>
      unfold incrementSlots
      obtain ⟨⟨done, next⟩, hincrement, hnext⟩ | ⟨fault, hincrement, hfault⟩ :=
        (incrementSlot_outcome hinv hcur hfits hkept fun _ => deepEnough_incrementDepth).cases
      · rw [hincrement]
        cases done with
        | false => exact hnext
        | true => exact ih hnext
      · rw [hincrement]
        exact hfault

include hcur hfits in
theorem repeatedEarly_outcome {tdiff : ℤ} (hkept : Kept fit start state) :
    Outcome (fun r => Kept fit start r.2.2) (Excused fit) (repeatedEarly tt tdiff state) := by
  unfold repeatedEarly
  split
  · dsimp only
    split
    · have hkept' : Kept fit start { state with
          sinfo := { state.sinfo with nEarlySamp := state.sinfo.nEarlySamp + 1 } } :=
        hkept.of_eq rfl rfl rfl rfl
      obtain ⟨⟨ret, next⟩, hdecrement, hnext⟩ | ⟨fault, hdecrement, hfault⟩ :=
        (decrementSlot_outcome hcur hfits hkept').cases
      · rw [hdecrement]
        exact hnext.of_eq rfl rfl rfl rfl
      · rw [hdecrement]
        exact hfault
    · exact hkept.of_eq rfl rfl rfl rfl
  · exact hkept.of_eq rfl rfl rfl rfl

include hcur hfits in
theorem earlyTime_outcome {tdiff : ℤ} (hkept : Kept fit start state) :
    Outcome (fun r => Kept fit start r.2) (Excused fit) (earlyTime tt tdiff state) := by
  have hkept' : Kept fit start { state with
      sinfo := { state.sinfo with minDiff := 0, nLateSamp := 0 } } := hkept.of_eq rfl rfl rfl rfl
  unfold earlyTime
  dsimp only
  obtain ⟨⟨ret, tdiff', next⟩, hearly, hnext⟩ | ⟨fault, hearly, hfault⟩ :=
    (repeatedEarly_outcome hcur hfits hkept').cases
  · rw [hearly]
    dsimp only at hnext ⊢
    split
    · obtain ⟨⟨done, last⟩, hdecrement, hlast⟩ | ⟨fault, hdecrement, hfault⟩ :=
        (decrementSlot_outcome hcur hfits hnext).cases
      · rw [hdecrement]
        exact hlast
      · rw [hdecrement]
        exact hfault
    · exact hnext
  · rw [hearly]
    exact hfault

include hinv hcur hfits in
theorem repeatedLate_outcome {tdiff : ℤ} (hkept : Kept fit start state) :
    Outcome (fun r => Kept fit start r.2) (Excused fit) (repeatedLate tt tdiff state) := by
  have hkept' : Kept fit start { state with
      sinfo := { state.sinfo with nLateSamp := state.sinfo.nLateSamp + 1 } } :=
    hkept.of_eq rfl rfl rfl rfl
  unfold repeatedLate
  dsimp only
  split
  · obtain ⟨⟨done, next⟩, hincrement, hnext⟩ | ⟨fault, hincrement, hfault⟩ :=
      (incrementSlot_outcome hinv hcur hfits hkept' fun _ => deepEnough_incrementDepth).cases
    · rw [hincrement]
      exact hnext.of_eq rfl rfl rfl rfl
    · rw [hincrement]
      exact hfault
  · exact hkept'

include hinv hcur hfits in
theorem lateTime_outcome {tdiff : ℤ} (hkept : Kept fit start state) :
    Outcome (Kept fit start) (Excused fit) (lateTime tt tdiff state) := by
  have hkept' : Kept fit start { state with sinfo := { state.sinfo with nEarlySamp := 0 } } :=
    hkept.of_eq rfl rfl rfl rfl
  unfold lateTime
  dsimp only
  split
  · obtain ⟨⟨tdiff', next⟩, hlate, hnext⟩ | ⟨fault, hlate, hfault⟩ :=
      (repeatedLate_outcome hinv hcur hfits hkept').cases
    · rw [hlate]
      dsimp only at hnext ⊢
      split
      · obtain ⟨last, hincrement, hlast⟩ | ⟨fault, hincrement, hfault⟩ :=
          (incrementSlots_outcome hinv hcur hfits hnext).cases
        · rw [hincrement]
          exact hlast.of_eq rfl rfl rfl rfl
        · rw [hincrement]
          exact hfault
      · exact hnext
    · rw [hlate]
      exact hfault
  · exact hkept'.of_eq rfl rfl rfl rfl

include hinv hcur hfits htt in
theorem checkTime_outcome (hkept : Kept fit start state) :
    Outcome (fun r => Kept fit start r.2) (Excused fit) (checkTime tt state) := by
  have hkept' : Kept fit start { state with sinfo := state.sinfo.restartMinDiff } :=
    hkept.of_eq rfl rfl rfl rfl
  obtain ⟨record, hrecord⟩ := hkept'.1.allocated.exists_record
  unfold checkTime
  dsimp only at hrecord ⊢
  rw [hrecord]
  dsimp only
  split
  · exact earlyTime_outcome hcur hfits hkept'
  · split
    · obtain ⟨next, hcompute, hnext⟩ | ⟨fault, hcompute, hfault⟩ :=
        (computeSlotIndex_outcome hinv hcur hfits htt hkept'.1).cases
      · rw [hcompute]
        exact hnext
      · rw [hcompute]
        exact hfault
    · obtain ⟨next, hlate, hnext⟩ | ⟨fault, hlate, hfault⟩ :=
        (lateTime_outcome hinv hcur hfits hkept').cases
      · rw [hlate]
        exact hnext
      · rw [hlate]
        exact hfault

include hinv hcur hfits htt in
/-- The slot of the next sample, from any slot of the sample or from none. -/
theorem nextSlot_outcome (hreached : Reached start state)
    (hlt : fit → state.sinfo.islot < state.sinfo.nSlots) :
    Outcome (Kept fit start) (Excused fit) (SyncSource.nextSlot tt state) := by
  unfold SyncSource.nextSlot
  split
  · exact computeSlotIndex_outcome hinv hcur hfits htt hreached
  · next hnonneg =>
      have hkept : Kept fit start state := ⟨hreached, fun hfit => ⟨not_lt.mp hnonneg, hlt hfit⟩⟩
      obtain ⟨⟨done, next⟩, hincrement, hnext⟩ | ⟨fault, hincrement, hfault⟩ :=
        (incrementSlot_outcome hinv hcur hfits hkept fun _ => deepEnough_incrementDepth).cases
      · rw [hincrement]
        exact hnext
      · rw [hincrement]
        exact hfault

end

end Nidas.Dynld
