import Nidas.Lib.Runs
import Nidas.Dynld.SyncInit

/-!
# Flushing the records

`flush` sends both records and leaves the samples as they are.  A sample that was in the second record
still is in it afterwards, although that record is gone, and its next value goes to the data of a
record that has been distributed.  And a sample of the second that has been flushed gets a new record
of the same second.

In a run whose samples do neither, every record that has been allocated is held or has been
distributed once, and the time tags of the distributed records increase by whole seconds.
-/

namespace Nidas.Dynld

open Lib

variable {α : Type*}

/-! ## Runs -/

/-- What is called of a source. -/
inductive SyncCall (α : Type*) where
  | receive (samp : SyncSample α)
  | flush

namespace SyncSource

/-- A call that does not fail. -/
def call (source : SyncSource α) : SyncCall α → Option (SyncSource α)
  | .receive samp =>
      match source.receive samp with
      | .ok (_, after) => some after
      | .error _ => none
  | .flush => some source.flush

/-- The record of the sample is there, or there is no need of it: the sample is too old, or the current
record is shipped.  And if there is no current record, those that have been distributed are of
earlier seconds. -/
def carefulReceive (source : SyncSource α) (samp : SyncSample α) : Bool :=
  match source.infos.find? fun sinfo => sinfo.id = samp.id with
  | none => true
  | some sinfo =>
      let begun := source.withCurrent samp.timeTag
      (decide (samp.timeTag < begun.window.syncTime begun.window.current) ||
        decide (samp.timeTag ≥ begun.triggerTime) ||
        (begun.window.records sinfo.irec).isSome) &&
      ((source.window.records source.window.current).isSome ||
        source.distributed.all fun record =>
          record.timeTag < samp.timeTag - samp.timeTag.tmod 1000000)

/-- The condition on a call. -/
def careful (source : SyncSource α) : SyncCall α → Bool
  | .receive samp => source.carefulReceive samp
  | .flush => true

end SyncSource

/-- The records that have not been distributed. -/
def SyncWindow.held (window : SyncWindow α) : List (SyncRecord α) :=
  (window.records window.current).toList ++ (window.records (!window.current)).toList

namespace Stored

variable {samp : SyncSample α} {state : SlotState α} {record : SyncRecord α}
  {window : SyncWindow α} (hstored : Stored samp state record window)

include hstored

theorem allocated_eq : window.allocated = state.window.allocated := by
  obtain ⟨data, -, rfl, -⟩ := hstored.window_eq
  rfl

theorem map_serial_held :
    window.held.map SyncRecord.serial = state.window.held.map SyncRecord.serial := by
  have hserial : ∀ irec, (window.records irec).toList.map SyncRecord.serial =
      (state.window.records irec).toList.map SyncRecord.serial := by
    obtain ⟨data, -, rfl, -⟩ := hstored.window_eq
    intro irec
    by_cases hirec : irec = state.sinfo.irec
    · subst irec
      simp [hstored.record_eq]
    · simp [hirec]
  unfold SyncWindow.held
  rw [List.map_append, List.map_append, hserial, hserial, hstored.current]

end Stored

/-! ## The invariant -/

/-- Every record is held or has been distributed, in the order of the seconds. -/
structure Steady (source : SyncSource α) : Prop where
  inv : source.window.Inv
  laidOut : ∀ sinfo ∈ source.infos, sinfo.LaidOut source.window.recSize
  accounted : ((source.distributed ++ source.window.held).map SyncRecord.serial).Perm
    (List.range source.window.allocated)
  whole : ∀ record ∈ source.distributed, (1000000 : ℤ) ∣ record.timeTag
  increasing : source.distributed.Pairwise fun first second => first.timeTag < second.timeTag
  later : ∀ sent ∈ source.distributed, ∀ irec record,
    source.window.records irec = some record → sent.timeTag < record.timeTag

theorem SyncWindow.held_allocateRecord {window : SyncWindow α} {irec : Bool} {timetag : ℤ}
    (hnone : window.records irec = none) :
    (window.allocateRecord irec timetag).held.Perm (window.held ++ [window.newRecord timetag]) := by
  rw [SyncWindow.allocateRecord_of_none hnone]
  unfold SyncWindow.held
  dsimp only
  by_cases hirec : irec = window.current
  · subst irec
    simp only [hnone, Function.update_self, Option.toList_some, List.singleton_append,
      Option.toList_none, List.nil_append, Bool.not_eq_self, Function.update_of_ne, ne_eq,
      not_false_eq_true]
    exact (List.perm_append_singleton _ _).symm
  · have hother : (!window.current) = irec := (Bool.eq_not_of_ne hirec).symm
    rw [hother, Function.update_self, Function.update_of_ne (Ne.symm hirec), hnone]
    simp

namespace Steady

variable {source : SyncSource α} (hsteady : Steady source)

include hsteady

/-- The allocation of a record behind all that have been distributed. -/
theorem allocateRecord {irec : Bool} {timetag : ℤ}
    (hinv : (source.window.allocateRecord irec timetag).Inv)
    (hlater : source.window.records irec = none → ∀ sent ∈ source.distributed,
      sent.timeTag < (source.window.newRecord timetag).timeTag) :
    Steady { source with window := source.window.allocateRecord irec timetag } where
  inv := hinv
  laidOut sinfo hmem := by
    dsimp only
    rw [SyncWindow.allocateRecord_recSize]
    exact hsteady.laidOut sinfo hmem
  accounted := by
    dsimp only
    cases hrecord : source.window.records irec with
    | none =>
        have hallocated : (source.window.allocateRecord irec timetag).allocated =
            source.window.allocated + 1 := by
          rw [SyncWindow.allocateRecord_of_none hrecord]
        rw [hallocated, List.range_succ]
        calc ((source.distributed ++ (source.window.allocateRecord irec timetag).held).map
              SyncRecord.serial).Perm
              ((source.distributed ++ (source.window.held ++
                [source.window.newRecord timetag])).map SyncRecord.serial) :=
            ((SyncWindow.held_allocateRecord hrecord).append_left _).map _
          _ = (source.distributed ++ source.window.held).map SyncRecord.serial ++
                [source.window.allocated] := by
            rw [← List.append_assoc, List.map_append]
            rfl
          List.Perm _ _ := hsteady.accounted.append_right _
    | some record =>
        rw [SyncWindow.allocateRecord_of_allocated (by simp [SyncWindow.Allocated, hrecord])]
        exact hsteady.accounted
  whole := hsteady.whole
  increasing := hsteady.increasing
  later sent hsent other record hrecord := by
    obtain hold | ⟨-, hnone, rfl⟩ := SyncWindow.of_records_allocateRecord hrecord
    · exact hsteady.later sent hsent other record hold
    · exact hlater hnone sent hsent

/-- The records stay as they are. -/
theorem of_infos {infos : List SyncInfo}
    (hlaid : ∀ sinfo ∈ infos, sinfo.LaidOut source.window.recSize) :
    Steady { source with infos := infos } :=
  ⟨hsteady.inv, hlaid, hsteady.accounted, hsteady.whole, hsteady.increasing, hsteady.later⟩

/-- The current record is sent. -/
theorem sendSyncRecord : Steady source.sendSyncRecord.nextCurrent where
  inv := SyncSource.sentWindow_inv hsteady.inv
  laidOut sinfo hmem := by
    change sinfo.LaidOut source.sentWindow.recSize
    rw [SyncSource.sentWindow_recSize]
    rw [SyncSource.sent_infos] at hmem
    exact hsteady.laidOut sinfo hmem
  accounted := by
    have hheld : source.sendSyncRecord.nextCurrent.distributed ++ source.sentWindow.held =
        source.distributed ++ source.window.held := by
      rw [SyncSource.sent_distributed, List.append_assoc]
      congr 1
      unfold SyncWindow.held
      rw [SyncSource.sentWindow_current, Bool.not_not, SyncSource.sentWindow_records_other,
        SyncSource.sentWindow_records_current]
      simp
    rw [← SyncSource.sentWindow, hheld, SyncSource.sentWindow, SyncSource.sent_allocated]
    exact hsteady.accounted
  whole record hmem := by
    rw [SyncSource.sent_distributed] at hmem
    obtain hmem | hmem := List.mem_append.mp hmem
    · exact hsteady.whole record hmem
    · exact hsteady.inv.whole _ record (Option.mem_toList.mp hmem)
  increasing := by
    rw [SyncSource.sent_distributed, List.pairwise_append]
    refine ⟨hsteady.increasing, ?_, fun sent hsent record hmem => ?_⟩
    · cases source.window.records source.window.current with
      | none => exact List.Pairwise.nil
      | some record => exact List.pairwise_singleton _ _
    · exact hsteady.later sent hsent _ record (Option.mem_toList.mp hmem)
  later sent hsent irec record hrecord := by
    change source.sentWindow.records irec = some record at hrecord
    -- only the second record is left
    by_cases hirec : irec = source.window.current
    · rw [hirec, SyncSource.sentWindow_records_other] at hrecord
      cases hrecord
    · rw [Bool.eq_not_of_ne hirec, SyncSource.sentWindow_records_current] at hrecord
      rw [SyncSource.sent_distributed] at hsent
      obtain hsent | hsent := List.mem_append.mp hsent
      · exact hsteady.later sent hsent _ record hrecord
      · have hfirst : source.window.records source.window.current = some sent :=
          Option.mem_toList.mp hsent
        rw [(hsteady.inv.apart record hrecord).2, SyncWindow.syncTime_of_records hfirst]
        omega

theorem flush : Steady source.flush := hsteady.sendSyncRecord.sendSyncRecord

/-- A record is allocated for a time tag behind the trigger time. -/
theorem advanceRecord {tt : ℤ} (hcur : source.window.Allocated source.window.current)
    (htrigger : tt ≥ source.triggerTime) : Steady (source.advanceRecord tt) := by
  obtain ⟨first, hfirst⟩ := hcur.exists_record
  have hsent := hsteady.sendSyncRecord
  have hlater : ∀ sent ∈ source.sendSyncRecord.nextCurrent.distributed,
      sent.timeTag < (source.sendSyncRecord.nextCurrent.window.newRecord tt).timeTag := by
    intro sent hmem
    have hle : sent.timeTag ≤ source.window.syncTime source.window.current := by
      rw [SyncWindow.syncTime_of_records hfirst]
      rw [SyncSource.sent_distributed, hfirst] at hmem
      obtain hmem | hmem := List.mem_append.mp hmem
      · exact (hsteady.later sent hmem _ first hfirst).le
      · rw [List.mem_singleton.mp hmem]
    unfold SyncSource.triggerTime at htrigger
    have hmod := Int.tmod_lt_of_pos tt (show (0 : ℤ) < 1000000 by decide)
    simp only [SyncWindow.newRecord]
    omega
  have hadvanced := hsent.allocateRecord hsent.inv.allocateRecord_current fun _ => hlater
  refine hadvanced.of_infos fun sinfo hmem => ?_
  obtain ⟨old, hold, rfl⟩ := List.mem_map.mp hmem
  exact (hadvanced.laidOut old hold).of_fixed SyncSource.advanceInfo_fixed

theorem shipped {tt : ℤ} {last : SyncSource α} (hshipped : SyncSource.Shipped tt source last)
    (hcur : source.window.Allocated source.window.current) :
    Steady last ∧ last.window.Allocated last.window.current := by
  induction hshipped with
  | refl source => exact ⟨hsteady, hcur⟩
  | step htrigger hrest ih =>
      exact ih (hsteady.advanceRecord hcur htrigger) SyncSource.advanceRecord_allocated

/-- The operations on slots may have allocated the second record. -/
theorem reached {sinfo : SyncInfo} {state : SlotState α}
    (hreached : Reached ⟨sinfo, source.window⟩ state)
    (hcur : source.window.Allocated source.window.current) :
    Steady { source with window := state.window } := by
  obtain hwindow | hwindow := hreached.window
  · rw [hwindow]
    exact hsteady
  · rw [hwindow]
    refine hsteady.allocateRecord (hsteady.inv.extended hcur) fun _ sent hsent => ?_
    obtain ⟨first, hfirst⟩ := hcur.exists_record
    have hlater := hsteady.later sent hsent _ first hfirst
    rw [hsteady.inv.newRecord_timeTag hcur, SyncWindow.syncTime_of_records hfirst]
    omega

theorem stored {samp : SyncSample α} {state : SlotState α} {record : SyncRecord α}
    {window : SyncWindow α} (hstored : Stored samp state record window)
    (hwindow : state.window = source.window) : Steady { source with window := window } where
  inv := hstored.inv (hwindow ▸ hsteady.inv)
  laidOut sinfo hmem := by
    change sinfo.LaidOut window.recSize
    rw [hstored.recSize, hwindow]
    exact hsteady.laidOut sinfo hmem
  accounted := by
    dsimp only
    rw [List.map_append, hstored.map_serial_held, hstored.allocated_eq, hwindow,
      ← List.map_append]
    exact hsteady.accounted
  whole := hsteady.whole
  increasing := hsteady.increasing
  later sent hsent irec stored hrecord := by
    obtain ⟨data, hbefore, -⟩ := hstored.records_of hrecord
    rw [hwindow] at hbefore
    have hlater := hsteady.later sent hsent irec _ hbefore
    exact hlater

theorem put {state : SlotState α} (hwindow : Steady { source with window := state.window })
    (hlaid : state.sinfo.LaidOut source.window.recSize)
    (hrecSize : state.window.recSize = source.window.recSize) : Steady (source.put state) := by
  refine hwindow.of_infos fun sinfo hmem => ?_
  dsimp only
  rw [hrecSize]
  obtain ⟨old, hold, rfl⟩ := List.mem_map.mp hmem
  split
  · exact hlaid
  · exact hsteady.laidOut old hold

theorem place_outcome {samp : SyncSample α} {sinfo : SyncInfo} (hmem : sinfo ∈ source.infos)
    (hcur : source.window.Allocated source.window.current)
    (hallocated : source.window.Allocated sinfo.irec) (htt : samp.timeTag < source.triggerTime) :
    Outcome (fun r => Steady r.2) (fun fault => fault ≠ .stale)
      (SyncSource.place samp sinfo source) := by
  have hlaid := hsteady.laidOut sinfo hmem
  refine (SyncSource.place_outcome hsteady.inv hcur hallocated hlaid (fun hfalse : False =>
    hfalse.elim) (fun hfalse => hfalse.elim) htt).mono ?_ (fun fault hfault => hfault.1)
  intro r hplaced
  cases hplaced with
  | discarded hkept =>
      exact hsteady.put (hsteady.reached hkept.1 hcur) (hlaid.of_fixed hkept.1.fixed)
        hkept.1.recSize
  | stored hkept hstored =>
      exact hsteady.put ((hsteady.reached hkept.1 hcur).stored hstored rfl)
        (hlaid.of_fixed hkept.1.fixed) (hstored.recSize.trans hkept.1.recSize)

/-- A careful call of `receive` uses no record that is not there. -/
theorem receive_outcome {samp : SyncSample α} (hcareful : source.carefulReceive samp = true) :
    Outcome (fun r => Steady r.2) (fun fault => fault ≠ .stale) (source.receive samp) := by
  unfold SyncSource.carefulReceive at hcareful
  unfold SyncSource.receive
  cases hfind : source.infos.find? fun sinfo => sinfo.id = samp.id with
  | none => exact hsteady
  | some sinfo =>
      rw [hfind] at hcareful
      simp only [Bool.and_eq_true, Bool.or_eq_true, decide_eq_true_eq, List.all_eq_true] at hcareful
      obtain ⟨hrecord, htimes⟩ := hcareful
      have hbegun : Steady (source.withCurrent samp.timeTag) := by
        refine hsteady.allocateRecord hsteady.inv.allocateRecord_current fun hnone => ?_
        rw [hnone] at htimes
        exact htimes.resolve_left (by simp)
      dsimp only
      split
      · exact hbegun
      · next hge =>
          have hshipped : SyncSource.Shipped samp.timeTag (source.withCurrent samp.timeTag) _ :=
            SyncSource.shipped_shipRecords 3
          obtain ⟨hlast, hcur⟩ := hbegun.shipped hshipped SyncSource.allocated_withCurrent
          split
          · exact hlast
          · next found hfound =>
              have hmem := List.mem_of_find?_eq_some hfound
              refine hlast.place_outcome hmem hcur ?_ SyncSource.shipRecords_lt_triggerTime
              by_cases htrigger : samp.timeTag ≥ (source.withCurrent samp.timeTag).triggerTime
              · rw [SyncSource.shipRecords_irec htrigger 2 hmem]
                exact hcur
              · -- no record is shipped
                rw [SyncSource.shipRecords_of_lt htrigger 2] at hfound ⊢
                obtain rfl : sinfo = found := Option.some.inj (hfind.symm.trans hfound)
                obtain (hearly | hlate) | hsome := hrecord
                · exact absurd hearly hge
                · exact absurd hlate htrigger
                · exact hsome

end Steady

/-! ## Runs of careful calls -/

theorem steady_init {vars : List TaggedVariable} {source : SyncSource α}
    (hinit : SyncSource.init vars = .ok source) : Steady source := by
  obtain ⟨-, hinitial, -, hrecords, hallocated, hdistributed⟩ := init_spec hinit
  refine ⟨⟨?_, ?_, ?_⟩, fun sinfo hmem => (hinitial sinfo hmem).laidOut, ?_, ?_, ?_, ?_⟩
  · simp [hrecords]
  · simp [hrecords]
  · simp [hrecords]
  · simp [SyncWindow.held, hrecords, hallocated, hdistributed]
  · simp [hdistributed]
  · simp [hdistributed]
  · simp [hdistributed]

theorem steady_of_reaches {vars : List TaggedVariable} {source state : SyncSource α}
    (hinit : SyncSource.init vars = .ok source)
    (hreach : Reaches (restrict SyncSource.careful SyncSource.call) source state) :
    Steady state := by
  apply hreach.invariant (steady_init hinit)
  intro before call after hbefore hstep
  obtain ⟨hcareful, hcall⟩ := restrict_eq_some.mp hstep
  cases call with
  | flush =>
      cases hcall
      exact hbefore.flush
  | receive samp =>
      unfold SyncSource.call at hcall
      obtain ⟨⟨accepted, next⟩, hreceive, hnext⟩ | ⟨fault, hreceive, -⟩ :=
        (hbefore.receive_outcome hcareful).cases
      · simp only [hreceive, Option.some.injEq] at hcall
        subst after
        exact hnext
      · simp [hreceive] at hcall

/-- One sample in each of ten slots of a second. -/
def tenSlots : TaggedVariable := { id := 1, rate := 10, length := 1, position := 0 }

/-- A flush between two seconds. -/
def flushBetween : List (SyncCall ℕ) :=
  [.receive { id := 1, timeTag := 100000, data := [5] }, .flush,
    .receive { id := 1, timeTag := 1200000, data := [6] }, .flush]

/-- A flush in the middle of a second. -/
def flushWithin : List (SyncCall ℕ) :=
  [.receive { id := 1, timeTag := 100000, data := [5] }, .flush,
    .receive { id := 1, timeTag := 600000, data := [6] }, .flush]

/-- A flush when the sample is in the second record. -/
def flushAhead : List (SyncCall ℕ) :=
  [.receive { id := 1, timeTag := 950000, data := [5] },
    .receive { id := 1, timeTag := 1020000, data := [6] }, .flush]

end Nidas.Dynld
