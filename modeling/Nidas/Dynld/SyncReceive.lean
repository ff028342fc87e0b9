import Nidas.Dynld.SyncLayout

/-!
# Receiving a sample

`receive` ships the records that are ready, finds the slot of the sample and stores it.  Shipping
moves the samples of the record that has been sent to the next one, so that all of them are in the
current record afterwards (`Shipped`).  Of the rest, `place` states that it stores the sample
in a slot of a record that is there, or discards it.
-/

namespace Nidas.Dynld

open Lib

variable {α : Type*}

namespace SyncSource

/-! ## Shipping records -/

/-- The source after any number of calls of `advanceRecord`, all for time tags at or behind the trigger
time. -/
inductive Shipped (tt : ℤ) : SyncSource α → SyncSource α → Prop
  | refl (source : SyncSource α) : Shipped tt source source
  | step {source last : SyncSource α} (htrigger : tt ≥ source.triggerTime)
      (hrest : Shipped tt (source.advanceRecord tt) last) : Shipped tt source last

section

variable {source : SyncSource α} {tt : ℤ}

theorem sendSyncRecord_current : source.sendSyncRecord.window.current = source.window.current := by
  unfold sendSyncRecord
  split <;> rfl

theorem sendSyncRecord_recSize : source.sendSyncRecord.window.recSize = source.window.recSize := by
  unfold sendSyncRecord
  split <;> rfl

theorem sendSyncRecord_records :
    source.sendSyncRecord.window.records =
      Function.update source.window.records source.window.current none := by
  unfold sendSyncRecord
  split
  · next hnone =>
      funext irec
      by_cases hirec : irec = source.window.current
      · subst irec
        simp [hnone]
      · simp [hirec]
  · rfl

theorem sent_infos : source.sendSyncRecord.nextCurrent.infos = source.infos := by
  unfold nextCurrent sendSyncRecord
  split <;> rfl

theorem sent_allocated :
    source.sendSyncRecord.nextCurrent.window.allocated = source.window.allocated := by
  unfold nextCurrent sendSyncRecord
  split <;> rfl

theorem sent_distributed :
    source.sendSyncRecord.nextCurrent.distributed =
      source.distributed ++ (source.window.records source.window.current).toList := by
  unfold nextCurrent sendSyncRecord
  split
  · next hnone => simp [hnone]
  · next record hrecord => simp [hrecord]

/-- The window of `advanceRecord` before the allocation. -/
def sentWindow (source : SyncSource α) : SyncWindow α := source.sendSyncRecord.nextCurrent.window

theorem sentWindow_current : source.sentWindow.current = !source.window.current := by
  simp [sentWindow, nextCurrent, sendSyncRecord_current]

theorem sentWindow_records_other :
    source.sentWindow.records source.window.current = none := by
  simp [sentWindow, nextCurrent, sendSyncRecord_records]

theorem sentWindow_records_current :
    source.sentWindow.records (!source.window.current) =
      source.window.records (!source.window.current) := by
  simp [sentWindow, nextCurrent, sendSyncRecord_records]

theorem sentWindow_recSize : source.sentWindow.recSize = source.window.recSize :=
  sendSyncRecord_recSize

theorem advanceRecord_window :
    (source.advanceRecord tt).window =
      source.sentWindow.allocateRecord (!source.window.current) tt := by
  unfold advanceRecord
  dsimp only
  rw [← sentWindow, sentWindow_current]

theorem advanceRecord_current :
    (source.advanceRecord tt).window.current = !source.window.current := by
  rw [advanceRecord_window, SyncWindow.allocateRecord_current, sentWindow_current]

theorem advanceRecord_recSize :
    (source.advanceRecord tt).window.recSize = source.window.recSize := by
  rw [advanceRecord_window, SyncWindow.allocateRecord_recSize, sentWindow_recSize]

theorem advanceRecord_allocated :
    (source.advanceRecord tt).window.Allocated (source.advanceRecord tt).window.current := by
  rw [advanceRecord_current, advanceRecord_window]
  exact SyncWindow.allocated_allocateRecord

/-- There is no second record after an advance. -/
theorem advanceRecord_records_other :
    (source.advanceRecord tt).window.records (!(source.advanceRecord tt).window.current) =
      none := by
  rw [advanceRecord_current, Bool.not_not, advanceRecord_window,
    SyncWindow.records_allocateRecord_of_ne (by simp), sentWindow_records_other]

theorem advanceRecord_infos :
    (source.advanceRecord tt).infos = source.infos.map (advanceInfo source.window.current) := by
  unfold advanceRecord sendSyncRecord nextCurrent
  dsimp only
  split <;> rfl

theorem advanceInfo_fixed {last : Bool} {sinfo : SyncInfo} :
    (advanceInfo last sinfo).fixed = sinfo.fixed := by
  unfold advanceInfo
  split <;> rfl

/-- All samples are in the next record after an advance. -/
theorem advanceInfo_irec {last : Bool} {sinfo : SyncInfo} :
    (advanceInfo last sinfo).irec = !last := by
  unfold advanceInfo
  split
  · rfl
  · next hirec => exact Bool.eq_not_of_ne hirec

theorem advanceRecord_halfMaxUsecsPerSample :
    (source.advanceRecord tt).halfMaxUsecsPerSample = source.halfMaxUsecsPerSample := by
  unfold advanceRecord sendSyncRecord nextCurrent
  dsimp only
  split <;> rfl

theorem sentWindow_inv (hinv : source.window.Inv) : source.sentWindow.Inv := by
  refine ⟨fun irec record hrecord => ?_, fun irec record hrecord => ?_, fun record hrecord => ?_⟩
  · by_cases hirec : irec = source.window.current
    · rw [hirec, sentWindow_records_other] at hrecord
      cases hrecord
    · rw [Bool.eq_not_of_ne hirec, sentWindow_records_current] at hrecord
      exact hinv.whole _ record hrecord
  · by_cases hirec : irec = source.window.current
    · rw [hirec, sentWindow_records_other] at hrecord
      cases hrecord
    · rw [Bool.eq_not_of_ne hirec, sentWindow_records_current] at hrecord
      rw [sentWindow_recSize]
      exact hinv.sized _ record hrecord
  · rw [sentWindow_current, Bool.not_not, sentWindow_records_other] at hrecord
    cases hrecord

theorem advanceRecord_inv (hinv : source.window.Inv) : (source.advanceRecord tt).window.Inv := by
  rw [advanceRecord_window, ← sentWindow_current]
  exact (sentWindow_inv hinv).allocateRecord_current

/-- The trigger time is behind the time tag of a record that is allocated for it. -/
theorem beforeTrigger_of_none (hnone : source.window.records (!source.window.current) = none) :
    tt < (source.advanceRecord tt).triggerTime := by
  have hnone' : source.sentWindow.records (!source.window.current) = none := by
    rw [sentWindow_records_current, hnone]
  have hrecord : (source.advanceRecord tt).window.records
      (source.advanceRecord tt).window.current = some (source.sentWindow.newRecord tt) := by
    rw [advanceRecord_current, advanceRecord_window, SyncWindow.allocateRecord_of_none hnone']
    simp
  unfold triggerTime
  rw [SyncWindow.syncTime_of_records hrecord]
  have hmod := Int.tmod_lt_of_pos tt (show (0 : ℤ) < 1000000 by decide)
  simp only [SyncWindow.newRecord]
  omega

/-- Two records may have to be sent, and no more. -/
theorem shipRecords_lt_triggerTime : tt < (shipRecords 3 tt source).triggerTime := by
  unfold shipRecords
  split
  · unfold shipRecords
    split
    · unfold shipRecords
      have hlt : tt < ((source.advanceRecord tt).advanceRecord tt).triggerTime :=
        beforeTrigger_of_none advanceRecord_records_other
      rw [if_neg (by omega)]
      exact hlt
    · omega
  · omega

theorem shipped_shipRecords (fuel : ℕ) : Shipped tt source (shipRecords fuel tt source) := by
  induction fuel generalizing source with
  | zero => exact .refl source
  | succ fuel ih =>
      unfold shipRecords
      split
      · next htrigger => exact .step htrigger ih
      · exact .refl source

end

theorem advanceRecord_irec {source : SyncSource α} {tt : ℤ} {sinfo : SyncInfo}
    (hmem : sinfo ∈ (source.advanceRecord tt).infos) :
    sinfo.irec = (source.advanceRecord tt).window.current := by
  rw [advanceRecord_infos] at hmem
  obtain ⟨old, -, rfl⟩ := List.mem_map.mp hmem
  rw [advanceInfo_irec, advanceRecord_current]

theorem Shipped.irec_eq {source last : SyncSource α} {tt : ℤ} (hshipped : Shipped tt source last)
    (hirec : ∀ sinfo ∈ source.infos, sinfo.irec = source.window.current) :
    ∀ sinfo ∈ last.infos, sinfo.irec = last.window.current := by
  induction hshipped with
  | refl source => exact hirec
  | step htrigger hrest ih => exact ih fun sinfo hmem => advanceRecord_irec hmem

/-- All samples are in the current record when a record has been shipped. -/
theorem shipRecords_irec {source : SyncSource α} {tt : ℤ} (htrigger : tt ≥ source.triggerTime)
    (fuel : ℕ) {sinfo : SyncInfo} (hmem : sinfo ∈ (shipRecords (fuel + 1) tt source).infos) :
    sinfo.irec = (shipRecords (fuel + 1) tt source).window.current := by
  unfold shipRecords at hmem ⊢
  rw [if_pos htrigger] at hmem ⊢
  exact (shipped_shipRecords fuel).irec_eq (fun sinfo hmem => advanceRecord_irec hmem) sinfo hmem

theorem shipRecords_of_lt {source : SyncSource α} {tt : ℤ} (hlt : ¬tt ≥ source.triggerTime)
    (fuel : ℕ) : shipRecords (fuel + 1) tt source = source := by
  unfold shipRecords
  rw [if_neg hlt]

theorem withCurrent_current {source : SyncSource α} {timetag : ℤ} :
    (source.withCurrent timetag).window.current = source.window.current :=
  SyncWindow.allocateRecord_current

theorem allocated_withCurrent {source : SyncSource α} {timetag : ℤ} :
    (source.withCurrent timetag).window.Allocated (source.withCurrent timetag).window.current := by
  rw [withCurrent_current]
  exact SyncWindow.allocated_allocateRecord

theorem withCurrent_of_allocated {source : SyncSource α} {timetag : ℤ}
    (hcur : source.window.Allocated source.window.current) :
    source.withCurrent timetag = source := by
  unfold withCurrent
  rw [SyncWindow.allocateRecord_of_allocated hcur]

/-! ## Placing a sample -/

/-- A sample has been discarded, or stored. -/
inductive Placed (fit : Prop) (samp : SyncSample α) (sinfo : SyncInfo) (source : SyncSource α) :
    Bool × SyncSource α → Prop
  | discarded {state : SlotState α} (hkept : Kept fit ⟨sinfo, source.window⟩ state) :
      Placed fit samp sinfo source (false, source.put state)
  | stored {state : SlotState α} {record : SyncRecord α} {window : SyncWindow α}
      (hkept : Kept fit ⟨sinfo, source.window⟩ state)
      (hstored : Stored samp state record window) :
      Placed fit samp sinfo source (true, source.put { state with window := window })

theorem place_outcome {fit : Prop} {samp : SyncSample α} {sinfo : SyncInfo}
    {source : SyncSource α} (hinv : source.window.Inv)
    (hcur : source.window.Allocated source.window.current)
    (hallocated : source.window.Allocated sinfo.irec)
    (hlaid : sinfo.LaidOut source.window.recSize)
    (hfits : fit → sinfo.Fits source.halfMaxUsecsPerSample)
    (hislot : fit → sinfo.islot < sinfo.nSlots) (htt : samp.timeTag < source.triggerTime) :
    Outcome (Placed fit samp sinfo source) (Excused fit) (place samp sinfo source) := by
  have hreached : Reached ⟨sinfo, source.window⟩ ⟨sinfo, source.window⟩ :=
    ⟨rfl, .inl rfl, hallocated⟩
  have hbefore : BeforeTrigger source.halfMaxUsecsPerSample samp.timeTag source.window := htt
  unfold place
  obtain ⟨state, hslot, hstate⟩ | ⟨fault, hslot, hfault⟩ :=
    (nextSlot_outcome hinv hcur hfits (fun _ => hbefore) hreached hislot).cases
  · rw [hslot]
    dsimp only
    obtain ⟨⟨accepted, state'⟩, hcheck, hkept⟩ | ⟨fault, hcheck, hfault⟩ :=
      (checkTime_outcome hinv hcur hfits (fun _ => hbefore) hstate).cases
    · rw [hcheck]
      dsimp only at hkept
      cases accepted with
      | false => exact .discarded hkept
      | true =>
          have hlaid' : state'.sinfo.LaidOut state'.window.recSize := by
            rw [hkept.1.recSize]
            exact hlaid.of_fixed hkept.1.fixed
          have houtcome : Outcome _ (Excused fit) (storeSample samp state') :=
            storeSample_outcome (hkept.1.inv hinv hcur) hkept.1.allocated hlaid' hkept.2
          dsimp only
          obtain ⟨window, hstore, record, hstored⟩ | ⟨fault, hstore, hfault⟩ := houtcome.cases
          · rw [hstore]
            exact .stored hkept hstored
          · rw [hstore]
            exact hfault
    · rw [hcheck]
      exact hfault
  · rw [hslot]
    exact hfault

end SyncSource

end Nidas.Dynld
