import Nidas.Dynld.SyncBounds
import Nidas.Dynld.SyncFlush

/-!
# The values of a sync record

`init` gives every selected variable a place in the record, and `copy_variables_to_record` goes
through the values of a sample from its first one on, as if the selected variables were all there is
in it.  A variable that is kept out of the record, in front of a selected one, has values in the
sample too.  `OwnValues` is what an accepted sample is expected to do to its record, and
`PositionsKept` tells for which variables it does so.
-/

namespace Nidas.Dynld

open Lib

variable {α : Type*}

/-! ## The cells of a variable -/

section

variable {nSlots islot : ℕ}

/-- The cells of a variable get its values, in the order of the variables. -/
theorem cellSource_of_getElem? (hislot : islot < nSlots) {lengths : List ℕ} {k len : ℕ}
    (hlen : lengths[k]? = some len) (index : ℕ) {j : ℕ} (hj : j < len) :
    cellSource nSlots islot index lengths
        (index + (lengths.take k).sum * nSlots + len * islot + j) =
      some ((lengths.take k).sum + j) := by
  induction lengths generalizing index k with
  | nil => simp at hlen
  | cons first rest ih =>
      cases k with
      | zero =>
          obtain rfl : first = len := by simpa using hlen
          rw [cellSource]
          simp only [List.take_zero, List.sum_nil, Nat.zero_mul, Nat.add_zero, Nat.zero_add]
          rw [if_pos (by omega)]
          congr 1
          omega
      | succ k =>
          have hslot := slot_le hislot first
          have hcell : index + ((first :: rest).take (k + 1)).sum * nSlots + len * islot + j =
              index + first * nSlots + (rest.take k).sum * nSlots + len * islot + j := by
            rw [List.take_succ_cons, List.sum_cons]
            ring
          rw [hcell, cellSource, if_neg (by omega), ih (by simpa using hlen)]
          simp only [Option.map_some, List.take_succ_cons, List.sum_cons]
          congr 1
          omega

/-- A cell that gets a value is one of a variable. -/
theorem exists_of_cellSource {lengths : List ℕ} {index cell source : ℕ}
    (hsource : cellSource nSlots islot index lengths cell = some source) :
    ∃ k len j, lengths[k]? = some len ∧ j < len ∧
      cell = index + (lengths.take k).sum * nSlots + len * islot + j := by
  induction lengths generalizing index source with
  | nil => cases hsource
  | cons first rest ih =>
      rw [cellSource] at hsource
      split at hsource
      · next hin =>
          refine ⟨0, first, cell - (index + first * islot), rfl, by omega, ?_⟩
          simp only [List.take_zero, List.sum_nil, Nat.zero_mul, Nat.add_zero]
          omega
      · obtain ⟨later, hlater, -⟩ := Option.map_eq_some_iff.mp hsource
        obtain ⟨k, len, j, hlen, hj, hcell⟩ := ih hlater
        refine ⟨k + 1, len, j, by simpa using hlen, hj, ?_⟩
        rw [hcell, List.take_succ_cons, List.sum_cons]
        ring

end

/-! ## What a sample is expected to do -/

namespace SyncInfo

/-- A cell of the slot of the `k`-th variable. -/
def IsCell (sinfo : SyncInfo) (k j cell : ℕ) : Prop :=
  ∃ start len, sinfo.varSRIndex[k]? = some start ∧ sinfo.varLengths[k]? = some len ∧ j < len ∧
    cell = start + len * sinfo.islot.toNat + j

/-- The record is laid out for the variables. -/
structure Laid (vars : List TaggedVariable) (recSize : ℕ) (sinfo : SyncInfo) : Prop where
  laidOut : sinfo.LaidOut recSize
  varLengths : sinfo.varLengths = (variablesOf sinfo.id vars).map TaggedVariable.length

variable {vars : List TaggedVariable} {recSize : ℕ} {sinfo other : SyncInfo}

theorem id_of_fixed (hfixed : other.fixed = sinfo.fixed) : other.id = sinfo.id := by
  simpa [fixed] using congrArg SyncInfo.id hfixed

theorem Laid.of_fixed (hlaid : sinfo.Laid vars recSize) (hfixed : other.fixed = sinfo.fixed) :
    other.Laid vars recSize := by
  refine ⟨hlaid.laidOut.of_fixed hfixed, ?_⟩
  have hlengths : other.varLengths = sinfo.varLengths := by
    simpa [fixed] using congrArg SyncInfo.varLengths hfixed
  rw [hlengths, id_of_fixed hfixed]
  exact hlaid.varLengths

theorem isCell_iff (hlaid : sinfo.LaidOut recSize) {k j cell : ℕ} :
    sinfo.IsCell k j cell ↔ ∃ len, sinfo.varLengths[k]? = some len ∧ j < len ∧
      cell = sinfo.sampleSRIndex + 1 + (sinfo.varLengths.take k).sum * sinfo.nSlots.toNat +
        len * sinfo.islot.toNat + j := by
  have hstart : ∀ len, sinfo.varLengths[k]? = some len → sinfo.varSRIndex[k]? =
      some (sinfo.sampleSRIndex + 1 + (sinfo.varLengths.take k).sum * sinfo.nSlots.toNat) := by
    intro len hlen
    rw [hlaid.indices]
    exact getElem?_offsets _ _ _ _ (List.getElem?_eq_some_iff.mp hlen).1
  constructor
  · rintro ⟨start, len, hstart', hlen, hj, rfl⟩
    rw [hstart len hlen] at hstart'
    cases hstart'
    exact ⟨len, hlen, hj, rfl⟩
  · rintro ⟨len, hlen, hj, rfl⟩
    exact ⟨_, len, hstart len hlen, hlen, hj, rfl⟩

end SyncInfo

/-- A record of the window, or a new one, which is full of NaN. -/
def SyncWindow.Holds (window : SyncWindow α) (irec : Bool) (record : SyncRecord α) : Prop :=
  window.records irec = some record ∨
    window.allocated ≤ record.serial ∧ record.data = List.replicate window.recSize .nan

/-- **Every value is under its own variable**: what a sample that `receive` accepts is expected to
do.  The record of the sample is one that was there before, or a new one; the slot of a variable has
the values that the sample has at the position of the variable, and no other value of the record has
been changed but the time offset of the sample. -/
def OwnValues (vars : List TaggedVariable) (samp : SyncSample α) (source after : SyncSource α) :
    Prop :=
  ∃ sinfo before record,
    (after.infos.find? fun sinfo => sinfo.id = samp.id) = some sinfo ∧
    source.window.Holds sinfo.irec before ∧
    after.window.records sinfo.irec = some record ∧ record.serial = before.serial ∧
    (samp.copied = true → ∀ k var j cell a, (variablesOf samp.id vars)[k]? = some var →
      sinfo.IsCell k j cell → samp.data[var.position + j]? = some a →
        record.data[cell]? = some (.value a)) ∧
    ∀ cell, cell ≠ sinfo.sampleSRIndex → (∀ k j, ¬sinfo.IsCell k j cell) →
      record.data[cell]? = before.data[cell]?

/-- The variables in front of a sampled one, of the same id, have as many values as the sample has
in front of that variable. -/
def PositionsKept (vars : List TaggedVariable) : Prop :=
  ∀ id before var after, variablesOf id vars = before ++ var :: after → 0 < var.length →
    (before.map TaggedVariable.length).sum = var.position

/-! ## A sample whose record is not there -/

section

variable {state next : SlotState α} {done : Bool}

theorem nextRecord_of_none (hnone : state.window.records state.sinfo.irec = none) :
    nextRecord state = .error .assertion := by
  unfold nextRecord
  dsimp only
  rw [hnone]

/-- The next slot of a sample without a record is without a record too. -/
theorem incrementSlot_of_none {fuel : ℕ} (hnone : state.window.records state.sinfo.irec = none)
    (hincrement : incrementSlot fuel state = .ok (done, next)) :
    next.window = state.window ∧ next.sinfo.irec = state.sinfo.irec := by
  induction fuel generalizing state with
  | zero => cases hincrement
  | succ fuel ih =>
      unfold incrementSlot at hincrement
      dsimp only at hincrement
      split at hincrement
      · rw [nextRecord_of_none (by exact hnone)] at hincrement
        cases hincrement
      · unfold checkNonIntRateIncrement at hincrement
        dsimp only at hincrement
        split at hincrement
        · cases hincrement
          exact ⟨rfl, rfl⟩
        · split at hincrement
          · split at hincrement
            · cases hincrement
            · split at hincrement
              · have hnext := fun hnone => ih hnone hincrement
                exact hnext hnone
              · split at hincrement
                · have hnext := fun hnone => ih hnone hincrement
                  exact hnext hnone
                · cases hincrement
                  exact ⟨rfl, rfl⟩
          · cases hincrement
            exact ⟨rfl, rfl⟩

/-- A sample is placed only if its record is there. -/
theorem allocated_of_place {samp : SyncSample α} {sinfo : SyncInfo} {source : SyncSource α}
    {r : Bool × SyncSource α} (hplace : SyncSource.place samp sinfo source = .ok r) :
    source.window.Allocated sinfo.irec := by
  by_contra hnot
  have hnone : source.window.records sinfo.irec = none := by
    simpa [SyncWindow.Allocated] using hnot
  have hslot : ∀ state, SyncSource.nextSlot samp.timeTag ⟨sinfo, source.window⟩ = .ok state →
      state.window.records state.sinfo.irec = none := by
    intro state hslot
    unfold SyncSource.nextSlot at hslot
    split at hslot
    · unfold computeSlotIndex at hslot
      dsimp only at hslot
      rw [hnone] at hslot
      cases hslot
    · cases hincrement : incrementSlot incrementDepth ⟨sinfo, source.window⟩ with
      | error fault =>
          rw [hincrement] at hslot
          cases hslot
      | ok r =>
          rw [hincrement] at hslot
          cases hslot
          obtain ⟨hwindow, hirec⟩ := incrementSlot_of_none (by exact hnone) hincrement
          rw [hwindow, hirec]
          exact hnone
  unfold SyncSource.place at hplace
  split at hplace
  · cases hplace
  · next state hstate =>
      have hcheck : checkTime samp.timeTag state = .error .stale := by
        unfold checkTime
        dsimp only
        have hrecord : state.window.records state.sinfo.restartMinDiff.irec = none :=
          hslot state hstate
        rw [hrecord]
      rw [hcheck] at hplace
      cases hplace

end

/-! ## Runs -/

namespace SyncSource

/-- The invariant of a run. -/
structure Laid (vars : List TaggedVariable) (source : SyncSource α) : Prop where
  inv : source.window.Inv
  infos : ∀ sinfo ∈ source.infos, sinfo.Laid vars source.window.recSize

variable {vars : List TaggedVariable} {source after : SyncSource α} {samp : SyncSample α}

theorem laid_init (hinit : SyncSource.init vars = .ok source) : source.Laid vars where
  inv := init_inv hinit
  infos sinfo hmem :=
    have hinitial := (init_spec hinit).2.1 sinfo hmem
    ⟨hinitial.laidOut, hinitial.varLengths⟩

namespace Laid

variable (hlaid : source.Laid vars)

include hlaid

theorem withCurrent (timetag : ℤ) : (source.withCurrent timetag).Laid vars where
  inv := hlaid.inv.allocateRecord_current
  infos sinfo hmem := by
    unfold SyncSource.withCurrent
    rw [SyncWindow.allocateRecord_recSize]
    exact hlaid.infos sinfo hmem

theorem advanceRecord (tt : ℤ) : (source.advanceRecord tt).Laid vars where
  inv := advanceRecord_inv hlaid.inv
  infos sinfo hmem := by
    rw [advanceRecord_infos] at hmem
    obtain ⟨old, hold, rfl⟩ := List.mem_map.mp hmem
    rw [advanceRecord_recSize]
    exact (hlaid.infos old hold).of_fixed advanceInfo_fixed

theorem shipped {tt : ℤ} {last : SyncSource α} (hshipped : Shipped tt source last)
    (hcur : source.window.Allocated source.window.current) :
    last.Laid vars ∧ last.window.Allocated last.window.current := by
  induction hshipped with
  | refl source => exact ⟨hlaid, hcur⟩
  | step htrigger hrest ih => exact ih (hlaid.advanceRecord tt) advanceRecord_allocated

/-- What has been changed of one sample. -/
theorem put {sinfo : SyncInfo} {state : SlotState α} (hmem : sinfo ∈ source.infos)
    (hinv : state.window.Inv) (hrecSize : state.window.recSize = source.window.recSize)
    (hfixed : state.sinfo.fixed = sinfo.fixed) : (source.put state).Laid vars where
  inv := hinv
  infos other hother := by
    change other.Laid vars state.window.recSize
    rw [hrecSize]
    obtain ⟨old, hold, rfl⟩ := List.mem_map.mp hother
    split
    · exact (hlaid.infos sinfo hmem).of_fixed hfixed
    · exact hlaid.infos old hold

theorem placed {sinfo : SyncInfo} {r : Bool × SyncSource α} (hmem : sinfo ∈ source.infos)
    (hcur : source.window.Allocated source.window.current)
    (hplaced : Placed False samp sinfo source r) : r.2.Laid vars := by
  cases hplaced with
  | discarded hkept =>
      exact hlaid.put hmem (hkept.1.inv hlaid.inv hcur) hkept.1.recSize hkept.1.fixed
  | stored hkept hstored =>
      exact hlaid.put hmem (hstored.inv (hkept.1.inv hlaid.inv hcur))
        (hstored.recSize.trans hkept.1.recSize) hkept.1.fixed

theorem flush : source.flush.Laid vars where
  inv := sentWindow_inv (sentWindow_inv hlaid.inv)
  infos sinfo hmem := by
    have hsize : source.flush.window.recSize = source.window.recSize :=
      sentWindow_recSize.trans sentWindow_recSize
    unfold SyncSource.flush at hmem
    rw [sent_infos, sent_infos] at hmem
    rw [hsize]
    exact hlaid.infos sinfo hmem

/-- What `receive` does if it does not fail: nothing, or it ships records and may place the
sample. -/
theorem receive_cases {r : Bool × SyncSource α} (hreceive : source.receive samp = .ok r) :
    r = (false, source) ∨
      ∃ last, Shipped samp.timeTag (source.withCurrent samp.timeTag) last ∧ last.Laid vars ∧
        last.window.Allocated last.window.current ∧
        (r = (false, last) ∨ ∃ sinfo,
          (last.infos.find? fun sinfo => sinfo.id = samp.id) = some sinfo ∧
            Placed False samp sinfo last r) := by
  have hship : ∀ last, Shipped samp.timeTag (source.withCurrent samp.timeTag) last →
      last.Laid vars ∧ last.window.Allocated last.window.current := fun last hshipped =>
    (hlaid.withCurrent samp.timeTag).shipped hshipped allocated_withCurrent
  unfold SyncSource.receive at hreceive
  split at hreceive
  · left
    exact (Except.ok.inj hreceive).symm
  · right
    dsimp only at hreceive
    split at hreceive
    · obtain ⟨hlast, hcur⟩ := hship _ (.refl _)
      exact ⟨_, .refl _, hlast, hcur, .inl (Except.ok.inj hreceive).symm⟩
    · obtain ⟨hlast, hcur⟩ := hship _ (shipped_shipRecords 3)
      refine ⟨_, shipped_shipRecords 3, hlast, hcur, ?_⟩
      split at hreceive
      · exact .inl (Except.ok.inj hreceive).symm
      · next sinfo hfind =>
          refine .inr ⟨sinfo, hfind, ?_⟩
          obtain ⟨placed, hplace, hplaced⟩ | ⟨fault, hplace, -⟩ :=
            (place_outcome hlast.inv hcur (allocated_of_place hreceive)
              (hlast.infos sinfo (List.mem_of_find?_eq_some hfind)).laidOut
              (fun hfalse : False => hfalse.elim) (fun hfalse => hfalse.elim)
              shipRecords_lt_triggerTime).cases
          · rw [hreceive] at hplace
            cases hplace
            exact hplaced
          · rw [hreceive] at hplace
            cases hplace

/-- One call. -/
theorem call {action : SyncCall α} (hcall : source.call action = some after) :
    after.Laid vars := by
  cases action with
  | flush =>
      cases hcall
      exact hlaid.flush
  | receive samp =>
      unfold SyncSource.call at hcall
      dsimp only at hcall
      cases hreceive : source.receive samp with
      | error fault =>
          rw [hreceive] at hcall
          cases hcall
      | ok r =>
          rw [hreceive] at hcall
          cases hcall
          obtain rfl | ⟨last, -, hlast, hcur, rfl | ⟨sinfo, hfind, hplaced⟩⟩ :=
            hlaid.receive_cases hreceive
          · exact hlaid
          · exact hlast
          · exact hlast.placed (List.mem_of_find?_eq_some hfind) hcur hplaced

end Laid

/-- Any calls. -/
theorem laid_of_reaches {start : SyncSource α} (hinit : SyncSource.init vars = .ok start)
    (hreach : Reaches SyncSource.call start source) : source.Laid vars :=
  hreach.invariant (laid_init hinit) fun _ _ _ hlaid hcall => hlaid.call hcall

end SyncSource

/-! ## The record of a sample -/

namespace SyncWindow

variable {window : SyncWindow α} {irec other : Bool} {timetag : ℤ} {record : SyncRecord α}

theorem Holds.of_allocateRecord (hholds : (window.allocateRecord irec timetag).Holds other record) :
    window.Holds other record := by
  obtain hrecord | ⟨hserial, hdata⟩ := hholds
  · obtain hold | ⟨-, -, rfl⟩ := of_records_allocateRecord hrecord
    · exact .inl hold
    · exact .inr ⟨le_rfl, rfl⟩
  · rw [allocateRecord_recSize] at hdata
    refine .inr ⟨le_trans ?_ hserial, hdata⟩
    cases hold : window.records irec with
    | none => simp [allocateRecord_of_none hold]
    | some record => rw [allocateRecord_of_allocated (by simp [Allocated, hold])]

end SyncWindow

namespace SyncSource

variable {vars : List TaggedVariable} {source after : SyncSource α} {samp : SyncSample α}
  {irec : Bool} {record : SyncRecord α}

theorem holds_of_sentWindow (hholds : source.sentWindow.Holds irec record) :
    source.window.Holds irec record := by
  obtain hrecord | ⟨hserial, hdata⟩ := hholds
  · left
    by_cases hirec : irec = source.window.current
    · rw [hirec, sentWindow_records_other] at hrecord
      cases hrecord
    · rwa [Bool.eq_not_of_ne hirec, sentWindow_records_current, ← Bool.eq_not_of_ne hirec]
        at hrecord
  · right
    rw [sentWindow_recSize] at hdata
    exact ⟨sent_allocated ▸ hserial, hdata⟩

theorem Shipped.holds {tt : ℤ} {last : SyncSource α} (hshipped : Shipped tt source last)
    (hholds : last.window.Holds irec record) : source.window.Holds irec record := by
  induction hshipped with
  | refl source => exact hholds
  | step htrigger hrest ih =>
      have hadvanced := ih hholds
      rw [advanceRecord_window] at hadvanced
      exact holds_of_sentWindow hadvanced.of_allocateRecord

/-- The one that has been changed is the one that is found. -/
theorem find?_put {sinfo : SyncInfo} {state : SlotState α}
    (hfind : (source.infos.find? fun sinfo => sinfo.id = samp.id) = some sinfo)
    (hfixed : state.sinfo.fixed = sinfo.fixed) :
    ((source.put state).infos.find? fun sinfo => sinfo.id = samp.id) = some state.sinfo := by
  have hid : sinfo.id = samp.id := by simpa using List.find?_some hfind
  have hstate : state.sinfo.id = samp.id := (SyncInfo.id_of_fixed hfixed).trans hid
  have hsame : ((fun sinfo : SyncInfo => decide (sinfo.id = samp.id)) ∘ fun sinfo =>
      if sinfo.id = state.sinfo.id then state.sinfo else sinfo) =
        fun sinfo => decide (sinfo.id = samp.id) := by
    funext other
    simp only [Function.comp_apply]
    by_cases hother : other.id = state.sinfo.id
    · rw [if_pos hother, hother]
    · rw [if_neg hother]
  unfold put
  dsimp only
  rw [List.find?_map, hsame, hfind, Option.map_some, if_pos (hid.trans hstate.symm)]

/-- **What an accepted sample does to its record**, cell by cell. -/
theorem Laid.record_of_receive (hlaid : source.Laid vars)
    (hreceive : source.receive samp = .ok (true, after)) :
    ∃ sinfo before record,
      (after.infos.find? fun sinfo => sinfo.id = samp.id) = some sinfo ∧
      source.window.Holds sinfo.irec before ∧
      after.window.records sinfo.irec = some record ∧ record.serial = before.serial ∧
      sinfo.id = samp.id ∧ sinfo.Laid vars after.window.recSize ∧ sinfo.Within ∧
      ∀ cell, record.data[cell]? =
        match samp.valueFor sinfo cell with
        | some a => some (.value a)
        | none => (before.data.set sinfo.sampleSRIndex (.offset sinfo.minDiff))[cell]? := by
  obtain hr | ⟨last, hshipped, hlast, hcur, hr | ⟨sinfo, hfind, hplaced⟩⟩ :=
    hlaid.receive_cases hreceive
  · cases hr
  · cases hr
  have hmem := List.mem_of_find?_eq_some hfind
  cases hplaced with
  | stored hkept hstored =>
      next state before window =>
      have hbefore : last.window.Holds state.sinfo.irec before := by
        obtain hwindow | hwindow := hkept.1.window
        · left
          have hrecord := hstored.record_eq
          rwa [hwindow] at hrecord
        · have hextended : (last.window.extended).Holds state.sinfo.irec before := by
            rw [← hwindow]
            exact .inl hstored.record_eq
          exact hextended.of_allocateRecord
      have hid : sinfo.id = samp.id := by simpa using List.find?_some hfind
      have hsize : window.recSize = last.window.recSize :=
        hstored.recSize.trans hkept.1.recSize
      have hsinfo : state.sinfo.Laid vars window.recSize := by
        rw [hsize]
        exact (hlast.infos sinfo hmem).of_fixed hkept.1.fixed
      obtain ⟨data, hlength, hwindow, hcells⟩ := hstored.window_eq
      refine ⟨state.sinfo, before, { before with data := data }, find?_put hfind hkept.1.fixed,
        (hshipped.holds hbefore).of_allocateRecord, ?_, rfl,
        (SyncInfo.id_of_fixed hkept.1.fixed).trans hid, hsinfo, hstored.within, hcells⟩
      change window.records state.sinfo.irec = _
      rw [hwindow]
      simp

end SyncSource

/-! ## Samples that are accepted -/

section

variable {window : SyncWindow α} {record : SyncRecord α} {sinfo : SyncInfo}
  (hrecord : window.records sinfo.irec = some record) (htime : record.timeTag = 0)
  (hdt : 0 < sinfo.dtUsec)

include hrecord htime hdt

/-- The time tag at the beginning of a second belongs to the first slot. -/
theorem computeSlotIndex_zero :
    computeSlotIndex 0 ⟨sinfo, window⟩ =
      .ok ⟨{ sinfo with islot := 0, nEarlySamp := 0, nLateSamp := 0 }, window⟩ := by
  unfold computeSlotIndex
  dsimp only
  rw [hrecord]
  dsimp only
  rw [if_neg (by omega)]
  dsimp only
  rw [if_neg (by omega), SyncWindow.syncTime_of_records hrecord, htime]
  simp

theorem checkTime_zero (hislot : sinfo.islot = 0) :
    ∃ checked : SyncInfo, checkTime 0 ⟨sinfo, window⟩ = .ok (true, ⟨checked, window⟩) ∧
      checked.islot = 0 ∧ checked.irec = sinfo.irec ∧ checked.fixed = sinfo.fixed := by
  obtain ⟨restarted, hrestarted⟩ : ∃ restarted, restarted = sinfo.restartMinDiff := ⟨_, rfl⟩
  have hirec' : restarted.irec = sinfo.irec := by rw [hrestarted]; rfl
  have hislot' : restarted.islot = 0 := by rw [hrestarted]; exact hislot
  have hfixed : restarted.fixed = sinfo.fixed := by rw [hrestarted]; rfl
  have hdt' : 0 < restarted.dtUsec := by rwa [SyncInfo.dtUsec_of_fixed hfixed]
  have hrecord' : window.records restarted.irec = some record := by rwa [hirec']
  have hdiff : slotDiff 0 ⟨restarted, window⟩ = 0 := by
    unfold slotDiff
    dsimp only
    rw [SyncWindow.syncTime_of_records hrecord', htime, hislot']
    simp
  unfold checkTime
  dsimp only
  rw [← hrestarted, hrecord']
  dsimp only
  rw [hdiff, if_neg (by omega)]
  split
  · rw [computeSlotIndex_zero hrecord' htime hdt']
    exact ⟨_, rfl, rfl, hirec', hfixed⟩
  · unfold lateTime
    dsimp only
    rw [if_neg (by omega)]
    exact ⟨_, rfl, hislot', hirec', hfixed⟩

end

/-- The first sample of a run is accepted at the beginning of a second. -/
theorem exists_receive_of_init {vars : List TaggedVariable} {start : SyncSource α}
    (hinit : SyncSource.init vars = .ok start) {var : TaggedVariable} (hmem : var ∈ vars)
    (hpos : 0 < var.floatRate) (data : List α) :
    ∃ after, start.receive { id := var.id, timeTag := 0, data := data } = .ok (true, after) := by
  obtain ⟨sinfo, hfind, hsinfo, -⟩ := exists_info_of_init hinit hmem hpos
  obtain ⟨hdt, hslots, hislot, hirec⟩ := overrun_of_init hinit hsinfo
  have hlaid := (SyncSource.laid_init hinit).withCurrent 0
  have hcur : (start.withCurrent 0).window.Allocated sinfo.irec := by
    rw [hirec]
    exact SyncWindow.allocated_allocateRecord
  obtain ⟨record, hrecord⟩ := hcur.exists_record
  have hsync : (start.withCurrent 0).window.syncTime start.window.current = 0 := by
    rw [syncTime_withCurrent_of_init hinit]
    decide
  have htime : record.timeTag = 0 := by
    rw [← SyncWindow.syncTime_of_records hrecord, hirec, hsync]
  obtain ⟨checked, hchecked, hislot', hirec', hfixed⟩ : ∃ checked : SyncInfo,
      checkTime 0 ⟨{ sinfo with islot := 0, nEarlySamp := 0, nLateSamp := 0 },
        (start.withCurrent 0).window⟩ = .ok (true, ⟨checked, (start.withCurrent 0).window⟩) ∧
      checked.islot = 0 ∧ checked.irec = sinfo.irec ∧ checked.fixed = sinfo.fixed :=
    checkTime_zero hrecord htime hdt rfl
  rw [SyncSource.receive_eq_place hfind (le_of_eq hsync)]
  · unfold SyncSource.place SyncSource.nextSlot
    dsimp only
    rw [if_pos hislot, computeSlotIndex_zero hrecord htime hdt]
    dsimp only
    rw [hchecked]
    dsimp only
    have hwithin : checked.Within := by
      refine ⟨hislot'.ge, ?_⟩
      rw [hislot', SyncInfo.nSlots_of_fixed hfixed]
      exact hslots
    have hallocated : (start.withCurrent 0).window.Allocated checked.irec := by
      rw [hirec']
      exact hcur
    have houtcome : Outcome _ (Excused True) (storeSample ⟨var.id, 0, true, data⟩
        ⟨checked, (start.withCurrent 0).window⟩) :=
      storeSample_outcome hlaid.inv hallocated
        ((hlaid.infos sinfo hsinfo).laidOut.of_fixed hfixed) (fun _ => hwithin)
    obtain ⟨window, hstore, -⟩ | ⟨fault, -, -, hnot⟩ := houtcome.cases
    · rw [hstore]
      exact ⟨_, rfl⟩
    · exact absurd trivial hnot
  · unfold SyncSource.triggerTime
    rw [SyncSource.withCurrent_current, hsync]
    dsimp only
    omega

/-! ## Values at their own positions -/

/-- The value that goes to a cell of a variable. -/
theorem valueFor_of_isCell (samp : SyncSample α) {sinfo : SyncInfo} {vars : List TaggedVariable}
    {recSize : ℕ} (hlaid : sinfo.Laid vars recSize) (hwithin : sinfo.Within)
    (hcopied : samp.copied = true) {before after : List TaggedVariable} {var : TaggedVariable}
    {id : ℕ} (hid : sinfo.id = id) (hvars : variablesOf id vars = before ++ var :: after)
    {j cell : ℕ} (hcell : sinfo.IsCell before.length j cell) :
    j < var.length ∧
      samp.valueFor sinfo cell =
        samp.data[(before.map TaggedVariable.length).sum + j]? := by
  obtain ⟨len, hlen, hj, rfl⟩ := (SyncInfo.isCell_iff hlaid.laidOut).mp hcell
  have hslot : sinfo.islot.toNat < sinfo.nSlots.toNat := by
    have := hwithin.1
    have := hwithin.2
    omega
  have htake : sinfo.varLengths.take before.length = before.map TaggedVariable.length := by
    rw [hlaid.varLengths, hid, hvars]
    simp
  have hvar : len = var.length := by
    rw [hlaid.varLengths, hid, hvars] at hlen
    simpa using hlen.symm
  refine ⟨hvar ▸ hj, ?_⟩
  rw [SyncSample.valueFor, if_pos hcopied, cellSource_of_getElem? hslot hlen _ hj, htake]
  rfl

theorem ownValues_of_positionsKept {vars : List TaggedVariable} (hkept : PositionsKept vars)
    {source after : SyncSource α} {samp : SyncSample α} (hlaid : source.Laid vars)
    (hreceive : source.receive samp = .ok (true, after)) : OwnValues vars samp source after := by
  obtain ⟨sinfo, before, record, hfind, hholds, hrecord, hserial, hid, hsinfo, hwithin, hcells⟩ :=
    hlaid.record_of_receive hreceive
  refine ⟨sinfo, before, record, hfind, hholds, hrecord, hserial, ?_, ?_⟩
  · intro hcopied k var j cell a hvar hcell ha
    -- the variables in front of the k-th one
    obtain ⟨hk, hget⟩ := List.getElem?_eq_some_iff.mp hvar
    have hsplit : variablesOf samp.id vars = (variablesOf samp.id vars).take k ++
        var :: (variablesOf samp.id vars).drop (k + 1) := by
      rw [← hget, List.cons_getElem_drop_succ, List.take_append_drop]
    have hlength : ((variablesOf samp.id vars).take k).length = k := by
      rw [List.length_take]
      omega
    obtain ⟨hj, hvalue⟩ := valueFor_of_isCell samp hsinfo hwithin hcopied hid hsplit
      (hlength.symm ▸ hcell)
    rw [hcells, hvalue, hkept _ _ _ _ hsplit (by omega), ha]
  · intro cell hlag hnot
    have hnone : samp.valueFor sinfo cell = none := by
      unfold SyncSample.valueFor
      split
      · cases hsource : cellSource sinfo.nSlots.toNat sinfo.islot.toNat (sinfo.sampleSRIndex + 1)
            sinfo.varLengths cell with
        | none => rfl
        | some source =>
            obtain ⟨k, len, j, hlen, hj, hcell⟩ := exists_of_cellSource hsource
            exact absurd ((SyncInfo.isCell_iff hsinfo.laidOut).mpr ⟨len, hlen, hj, hcell⟩)
              (hnot k j)
      · rfl
    rw [hcells, hnone]
    dsimp only
    rw [List.getElem?_set_ne hlag.symm]

/-- A sample that tells its values apart. -/
def markedData (marked other : α) (position length : ℕ) : List α :=
  (List.replicate length other).set position marked

theorem getElem?_markedData_self (marked other : α) {position length : ℕ}
    (hlt : position < length) :
    (markedData marked other position length)[position]? = some marked := by
  unfold markedData
  rw [List.getElem?_set_self (by simpa using hlt)]

theorem getElem?_markedData_of_ne (marked other : α) {position length index : ℕ}
    (hlt : index < length) (hne : index ≠ position) :
    (markedData marked other position length)[index]? = some other := by
  unfold markedData
  rw [List.getElem?_set_ne hne.symm, List.getElem?_replicate, if_pos hlt]

theorem positionsKept_of_ownValues [Nontrivial α] {vars : List TaggedVariable}
    {start : SyncSource α} (hinit : SyncSource.init vars = .ok start)
    (hown : ∀ samp after, start.receive samp = .ok (true, after) →
      OwnValues vars samp start after) : PositionsKept vars := by
  intro id before var rest hvars hpos
  by_contra hne
  obtain ⟨marked, other, hother⟩ := exists_pair_ne α
  have hmem : var ∈ variablesOf id vars := by
    rw [hvars]
    simp
  obtain ⟨hvar, rfl, hrate⟩ : var ∈ vars ∧ var.id = id ∧ 0 < var.floatRate := by
    simpa [variablesOf] using hmem
  obtain ⟨after, hreceive⟩ := exists_receive_of_init hinit hvar hrate
    (markedData marked other var.position
      (var.position + (before.map TaggedVariable.length).sum + 1))
  obtain ⟨sinfo, first, record, hfind, -, hrecord, -, hid, hsinfo, hwithin, hcells⟩ :=
    (SyncSource.laid_init hinit).record_of_receive hreceive
  obtain ⟨sinfo', -, record', hfind', -, hrecord', -, hvalues, -⟩ := hown _ _ hreceive
  obtain rfl : sinfo = sinfo' := Option.some.inj (hfind.symm.trans hfind')
  obtain rfl : record = record' := Option.some.inj (hrecord.symm.trans hrecord')
  dsimp only at hid
  -- the first cell of the variable
  have hlen : sinfo.varLengths[before.length]? = some var.length := by
    rw [hsinfo.varLengths, hid, hvars]
    simp
  obtain ⟨cell, hcell⟩ : ∃ cell, sinfo.IsCell before.length 0 cell :=
    ⟨_, (SyncInfo.isCell_iff hsinfo.laidOut).mpr ⟨var.length, hlen, hpos, rfl⟩⟩
  have hmarked := hvalues rfl before.length var 0 cell marked (by rw [hvars]; simp) hcell
    (getElem?_markedData_self marked other (by omega))
  obtain ⟨-, hvalue⟩ := valueFor_of_isCell ⟨var.id, 0, true, markedData marked other var.position
    (var.position + (before.map TaggedVariable.length).sum + 1)⟩ hsinfo hwithin rfl hid hvars hcell
  have hget : (markedData marked other var.position
      (var.position + (before.map TaggedVariable.length).sum + 1))[
        (before.map TaggedVariable.length).sum + 0]? = some other :=
    getElem?_markedData_of_ne marked other (by omega) hne
  rw [hcells, hvalue, hget] at hmarked
  cases hmarked
  exact hother rfl

/-- A counter and a variable of two values, ten times a second. -/
def counterTag : SyncTag :=
  { id := 1, rate := 10, vars := [{ type := .counter }, { length := 2 }] }

/-- The same tag with a clock in front. -/
def clockTag : SyncTag :=
  { id := 1, rate := 10, vars := [{ type := .clock }, { type := .counter }, { length := 2 }] }

theorem positionsKept_counterTag : PositionsKept (selectVariablesFromProject [[counterTag]]) := by
  intro id before var after hvars hpos
  have hlist : selectVariablesFromProject [[counterTag]] = [⟨1, 10, 1, 0⟩, ⟨1, 10, 2, 1⟩] := by
    decide +kernel
  rw [hlist] at hvars
  by_cases hid : id = 1
  · subst id
    have hboth : variablesOf 1 [⟨1, 10, 1, 0⟩, ⟨1, 10, 2, 1⟩] = [⟨1, 10, 1, 0⟩, ⟨1, 10, 2, 1⟩] := by
      decide +kernel
    rw [hboth] at hvars
    match before, hvars with
    | [], hvars =>
        cases hvars
        rfl
    | [first], hvars =>
        cases hvars
        rfl
    | first :: second :: more, hvars => simp at hvars
  · have hnone : variablesOf id [⟨1, 10, 1, 0⟩, ⟨1, 10, 2, 1⟩] = [] := by
      have hne : (1 : ℕ) ≠ id := fun heq => hid heq.symm
      simp [variablesOf, hne]
    rw [hnone] at hvars
    simp at hvars

end Nidas.Dynld
