import Nidas.Dynld.SyncValues

/-!
# Where the values of a record come from

Over a run of a source every value of a record, whether the record is still held or has been
distributed, is one that a sample of the run has for that variable; and the cell of the time
offset of a sample never has anything else in it than a time offset (`traced_of_runSteps`).  No two
values of different variables, slots or positions share a cell (`IsSlotCell.unique`).
-/

namespace Nidas.Dynld

open Lib

variable {α : Type*}

/-! ## The cells of a slot -/

/-- A cell of a slot of the `k`-th variable. -/
def SyncInfo.IsSlotCell (sinfo : SyncInfo) (k islot j cell : ℕ) : Prop :=
  ∃ start len, sinfo.varSRIndex[k]? = some start ∧ sinfo.varLengths[k]? = some len ∧ j < len ∧
    islot < sinfo.nSlots.toNat ∧ cell = start + len * islot + j

theorem sum_take_le {lengths : List ℕ} {k len other : ℕ} (hlen : lengths[k]? = some len)
    (hlt : k < other) : (lengths.take k).sum + len ≤ (lengths.take other).sum := by
  obtain ⟨hk, hget⟩ := List.getElem?_eq_some_iff.mp hlen
  obtain ⟨more, rfl⟩ := Nat.exists_eq_add_of_lt hlt
  have hsplit : (lengths.take (k + 1)).sum = (lengths.take k).sum + len := by
    rw [List.take_add_one, hlen]
    simp
  have hle : (lengths.take (k + 1)).sum ≤ (lengths.take (k + more + 1)).sum := by
    have hprefix : lengths.take (k + 1) <+: lengths.take (k + more + 1) :=
      List.take_prefix_take_left (by omega)
    obtain ⟨rest, hrest⟩ := hprefix
    rw [← hrest, List.sum_append]
    omega
  omega

namespace SyncInfo

section

variable {sinfo : SyncInfo} {recSize : ℕ} {k islot j cell : ℕ}

theorem isSlotCell_iff (hlaid : sinfo.LaidOut recSize) :
    sinfo.IsSlotCell k islot j cell ↔ ∃ len, sinfo.varLengths[k]? = some len ∧ j < len ∧
      islot < sinfo.nSlots.toNat ∧
      cell = sinfo.sampleSRIndex + 1 + (sinfo.varLengths.take k).sum * sinfo.nSlots.toNat +
        len * islot + j := by
  have hstart : ∀ len, sinfo.varLengths[k]? = some len → sinfo.varSRIndex[k]? =
      some (sinfo.sampleSRIndex + 1 + (sinfo.varLengths.take k).sum * sinfo.nSlots.toNat) := by
    intro len hlen
    rw [hlaid.indices]
    exact getElem?_offsets _ _ _ _ (List.getElem?_eq_some_iff.mp hlen).1
  constructor
  · rintro ⟨start, len, hstart', hlen, hj, hislot, rfl⟩
    rw [hstart len hlen] at hstart'
    cases hstart'
    exact ⟨len, hlen, hj, hislot, rfl⟩
  · rintro ⟨len, hlen, hj, hislot, rfl⟩
    exact ⟨_, len, hstart len hlen, hlen, hj, hislot, rfl⟩

/-- The cells of a sample are behind its time offset. -/
theorem IsSlotCell.inside (h : sinfo.IsSlotCell k islot j cell) (hlaid : sinfo.LaidOut recSize) :
    sinfo.sampleSRIndex < cell ∧
      cell < sinfo.sampleSRIndex + 1 + sinfo.varLengths.sum * sinfo.nSlots.toNat := by
  obtain ⟨len, hlen, hj, hislot, rfl⟩ := (isSlotCell_iff hlaid).mp h
  have hslot := slot_le hislot len
  have hsum := sum_take_le hlen (List.getElem?_eq_some_iff.mp hlen).1
  rw [List.take_length] at hsum
  have hmul := Nat.mul_le_mul_right sinfo.nSlots.toNat hsum
  rw [Nat.add_mul] at hmul
  omega

/-- A cell belongs to one variable, one slot and one position. -/
theorem IsSlotCell.unique (h : sinfo.IsSlotCell k islot j cell) (hlaid : sinfo.LaidOut recSize)
    {k' islot' j' : ℕ} (h' : sinfo.IsSlotCell k' islot' j' cell) :
    k' = k ∧ islot' = islot ∧ j' = j := by
  obtain ⟨len, hlen, hj, hislot, hcell⟩ := (isSlotCell_iff hlaid).mp h
  obtain ⟨len', hlen', hj', hislot', hcell'⟩ := (isSlotCell_iff hlaid).mp h'
  have hslot := slot_le hislot len
  have hslot' := slot_le hislot' len'
  have hbehind : ∀ {k k' len : ℕ}, sinfo.varLengths[k]? = some len → k < k' →
      (sinfo.varLengths.take k).sum * sinfo.nSlots.toNat + len * sinfo.nSlots.toNat ≤
        (sinfo.varLengths.take k').sum * sinfo.nSlots.toNat := by
    intro k k' len hlen hlt
    rw [← Nat.add_mul]
    exact Nat.mul_le_mul_right _ (sum_take_le hlen hlt)
  obtain hlt | rfl | hlt := Nat.lt_trichotomy k k'
  · have := hbehind hlen hlt
    omega
  · rw [hlen] at hlen'
    cases hlen'
    have hsame : len * islot + j = len * islot' + j' := by omega
    have hdiv := congrArg (· / len) hsame
    have hmod := congrArg (· % len) hsame
    simp only [Nat.mul_add_div (Nat.zero_lt_of_lt hj), Nat.div_eq_of_lt hj, Nat.div_eq_of_lt hj',
      Nat.mul_add_mod, Nat.mod_eq_of_lt hj, Nat.mod_eq_of_lt hj'] at hdiv hmod
    exact ⟨rfl, by omega, hmod.symm⟩
  · have := hbehind hlen' hlt
    omega

end

/-- The layout does not change in a run. -/
theorem IsSlotCell.of_fixed {sinfo other : SyncInfo} {k islot j cell : ℕ}
    (hfixed : other.fixed = sinfo.fixed) (h : other.IsSlotCell k islot j cell) :
    sinfo.IsSlotCell k islot j cell := by
  have hindices : other.varSRIndex = sinfo.varSRIndex := by
    simpa [fixed] using congrArg varSRIndex hfixed
  have hlengths : other.varLengths = sinfo.varLengths := by
    simpa [fixed] using congrArg varLengths hfixed
  unfold IsSlotCell at h ⊢
  rwa [hindices, hlengths, nSlots_of_fixed hfixed] at h

theorem sampleSRIndex_of_fixed {sinfo other : SyncInfo} (hfixed : other.fixed = sinfo.fixed) :
    other.sampleSRIndex = sinfo.sampleSRIndex := by
  simpa [fixed] using congrArg sampleSRIndex hfixed

end SyncInfo

/-! ## Traced records -/

/-- What a cell can have in it, for some samples that have been received: nothing, the time offset
that belongs there, or a value of the variable that belongs there. -/
inductive Explains (infos : List SyncInfo) (samples : List (SyncSample α)) (cell : ℕ) :
    Cell α → Prop
  | nan : Explains infos samples cell .nan
  | offset {sinfo : SyncInfo} (hsinfo : sinfo ∈ infos) (hcell : cell = sinfo.sampleSRIndex)
      (usec : ℤ) : Explains infos samples cell (.offset usec)
  | value {sinfo : SyncInfo} {k islot j : ℕ} {samp : SyncSample α} {a : α} (hsinfo : sinfo ∈ infos)
      (hcell : sinfo.IsSlotCell k islot j cell) (hsamp : samp ∈ samples) (hid : samp.id = sinfo.id)
      (hvalue : samp.data[(sinfo.varLengths.take k).sum + j]? = some a) :
      Explains infos samples cell (.value a)

/-- All cells of a record can have in them what they have. -/
structure Traced (start : SyncSource α) (samples : List (SyncSample α)) (record : SyncRecord α) :
    Prop where
  length : record.data.length = start.window.recSize
  explains : ∀ (cell : ℕ) (content : Cell α), record.data[cell]? = some content →
    Explains start.infos samples cell content

/-- The invariant of a run: the layout is that of the start, and all records are traced. -/
structure TracedSource (vars : List TaggedVariable) (start : SyncSource α)
    (samples : List (SyncSample α)) (source : SyncSource α) : Prop where
  laid : source.Laid vars
  recSize : source.window.recSize = start.window.recSize
  fixed : ∀ sinfo ∈ source.infos, ∃ first ∈ start.infos, sinfo.fixed = first.fixed
  held : ∀ irec record, source.window.records irec = some record → Traced start samples record
  distributed : ∀ record ∈ source.distributed, Traced start samples record

section Steps

variable {vars : List TaggedVariable} {start source : SyncSource α} {samples : List (SyncSample α)}

theorem traced_newRecord {window : SyncWindow α} (hsize : window.recSize = start.window.recSize)
    (timetag : ℤ) : Traced start samples (window.newRecord timetag) := by
  constructor
  case length => simpa [SyncWindow.newRecord] using hsize
  case explains =>
    intro cell content hcontent
    obtain ⟨hlt, hget⟩ := List.getElem?_eq_some_iff.mp hcontent
    obtain rfl : Cell.nan = content := by simpa [SyncWindow.newRecord] using hget
    exact .nan

theorem traced_allocateRecord {window : SyncWindow α}
    (hsize : window.recSize = start.window.recSize)
    (hheld : ∀ irec record, window.records irec = some record → Traced start samples record)
    {irec other : Bool} {timetag : ℤ} {record : SyncRecord α}
    (hrecord : (window.allocateRecord irec timetag).records other = some record) :
    Traced start samples record := by
  obtain hold | ⟨-, -, rfl⟩ := SyncWindow.of_records_allocateRecord hrecord
  · exact hheld _ _ hold
  · exact traced_newRecord hsize timetag

/-- The value that a sample has for a cell. -/
theorem explains_value {samp : SyncSample α} {sinfo first : SyncInfo} {recSize cell : ℕ} {a : α}
    (hsamp : samp ∈ samples) (hfirst : first ∈ start.infos) (hfixed : sinfo.fixed = first.fixed)
    (hid : sinfo.id = samp.id) (hlaid : sinfo.LaidOut recSize) (hwithin : sinfo.Within)
    (hvalue : samp.valueFor sinfo cell = some a) :
    Explains start.infos samples cell (.value a) := by
  unfold SyncSample.valueFor at hvalue
  split at hvalue
  · obtain ⟨position, hsource, hget⟩ := Option.bind_eq_some_iff.mp hvalue
    obtain ⟨k, len, j, hlen, hj, hcell⟩ := exists_of_cellSource hsource
    have hislot : sinfo.islot.toNat < sinfo.nSlots.toNat := by
      have := hwithin.1
      have := hwithin.2
      omega
    have hlengths : sinfo.varLengths = first.varLengths := by
      simpa [SyncInfo.fixed] using congrArg SyncInfo.varLengths hfixed
    rw [hcell, cellSource_of_getElem? hislot hlen _ hj] at hsource
    cases hsource
    refine .value hfirst (SyncInfo.IsSlotCell.of_fixed hfixed
      ((SyncInfo.isSlotCell_iff hlaid).mpr ⟨len, hlen, hj, hislot, hcell⟩)) hsamp
      (hid.symm.trans (SyncInfo.id_of_fixed hfixed)) ?_
    rw [← hlengths]
    exact hget
  · cases hvalue

namespace TracedSource

variable (htraced : TracedSource vars start samples source)

include htraced

theorem withCurrent (timetag : ℤ) :
    TracedSource vars start samples (source.withCurrent timetag) where
  laid := htraced.laid.withCurrent timetag
  recSize := SyncWindow.allocateRecord_recSize.trans htraced.recSize
  fixed := htraced.fixed
  held _ _ hrecord := traced_allocateRecord htraced.recSize htraced.held hrecord
  distributed := htraced.distributed

/-- What is left in the window when the current record has been sent. -/
theorem held_sentWindow {irec : Bool} {record : SyncRecord α}
    (hrecord : source.sentWindow.records irec = some record) : Traced start samples record := by
  by_cases hirec : irec = source.window.current
  · rw [hirec, SyncSource.sentWindow_records_other] at hrecord
    cases hrecord
  · rw [Bool.eq_not_of_ne hirec, SyncSource.sentWindow_records_current] at hrecord
    exact htraced.held _ _ hrecord

theorem distributed_sent {record : SyncRecord α}
    (hmem : record ∈ source.sendSyncRecord.nextCurrent.distributed) :
    Traced start samples record := by
  rw [SyncSource.sent_distributed] at hmem
  obtain hmem | hmem := List.mem_append.mp hmem
  · exact htraced.distributed record hmem
  · exact htraced.held _ record (Option.mem_toList.mp hmem)

theorem sent : TracedSource vars start samples source.sendSyncRecord.nextCurrent where
  laid :=
    { inv := SyncSource.sentWindow_inv htraced.laid.inv
      infos := fun sinfo hmem => by
        have hsize : source.sendSyncRecord.nextCurrent.window.recSize = source.window.recSize :=
          SyncSource.sentWindow_recSize
        rw [SyncSource.sent_infos] at hmem
        rw [hsize]
        exact htraced.laid.infos sinfo hmem }
  recSize := SyncSource.sentWindow_recSize.trans htraced.recSize
  fixed := by
    rw [SyncSource.sent_infos]
    exact htraced.fixed
  held irec record hrecord := htraced.held_sentWindow hrecord
  distributed record hmem := htraced.distributed_sent hmem

theorem advanceRecord (tt : ℤ) : TracedSource vars start samples (source.advanceRecord tt) where
  laid := htraced.laid.advanceRecord tt
  recSize := SyncSource.advanceRecord_recSize.trans htraced.recSize
  fixed sinfo hmem := by
    rw [SyncSource.advanceRecord_infos] at hmem
    obtain ⟨old, hold, rfl⟩ := List.mem_map.mp hmem
    rw [SyncSource.advanceInfo_fixed]
    exact htraced.fixed old hold
  held irec record hrecord := by
    rw [SyncSource.advanceRecord_window] at hrecord
    exact traced_allocateRecord (SyncSource.sentWindow_recSize.trans htraced.recSize)
      (fun _ _ => htraced.held_sentWindow) hrecord
  distributed record hmem := htraced.distributed_sent hmem

theorem shipped {tt : ℤ} {last : SyncSource α} (hshipped : SyncSource.Shipped tt source last) :
    TracedSource vars start samples last := by
  induction hshipped with
  | refl source => exact htraced
  | step htrigger hrest ih => exact ih (htraced.advanceRecord _)

/-- What `place` does with the sample. -/
theorem put {samp : SyncSample α} (hsamp : samp ∈ samples) {sinfo : SyncInfo}
    {r : Bool × SyncSource α} (hmem : sinfo ∈ source.infos)
    (hid : sinfo.id = samp.id) (hcur : source.window.Allocated source.window.current)
    (hplaced : SyncSource.Placed False samp sinfo source r) :
    TracedSource vars start samples r.2 := by
  obtain ⟨first, hfirst, hsame⟩ := htraced.fixed sinfo hmem
  have hinfos : ∀ (state : SlotState α), state.sinfo.fixed = sinfo.fixed →
      ∀ other ∈ (source.put state).infos, ∃ first ∈ start.infos, other.fixed = first.fixed := by
    intro state hfixed other hother
    obtain ⟨old, hold, rfl⟩ := List.mem_map.mp hother
    split
    · exact ⟨first, hfirst, hfixed.trans hsame⟩
    · exact htraced.fixed old hold
  have hreached : ∀ {state : SlotState α}, Kept False ⟨sinfo, source.window⟩ state →
      ∀ irec record, state.window.records irec = some record →
        Traced start samples record := by
    intro state hkept irec record hrecord
    obtain hwindow | hwindow := hkept.1.window
    · rw [hwindow] at hrecord
      exact htraced.held _ _ hrecord
    · rw [hwindow] at hrecord
      exact traced_allocateRecord htraced.recSize htraced.held hrecord
  have hlaid := htraced.laid.placed hmem hcur hplaced
  cases hplaced with
  | discarded hkept =>
      exact ⟨hlaid, hkept.1.recSize.trans htraced.recSize, hinfos _ hkept.1.fixed,
        hreached hkept, htraced.distributed⟩
  | stored hkept hstored =>
      next state before window =>
      refine ⟨hlaid, (hstored.recSize.trans hkept.1.recSize).trans htraced.recSize,
        hinfos _ hkept.1.fixed, ?_, htraced.distributed⟩
      intro irec record hrecord
      obtain ⟨data, hlength, hwindow, hcells⟩ := hstored.window_eq
      have hbefore := hreached hkept _ _ hstored.record_eq
      change window.records irec = some record at hrecord
      rw [hwindow] at hrecord
      dsimp only at hrecord
      by_cases hirec : irec = state.sinfo.irec
      · subst hirec
        rw [Function.update_self] at hrecord
        cases hrecord
        refine ⟨hlength.trans hbefore.length, fun cell content hcontent => ?_⟩
        dsimp only at hcontent
        rw [hcells] at hcontent
        have hfixed : state.sinfo.fixed = first.fixed := hkept.1.fixed.trans hsame
        cases hvalue : samp.valueFor state.sinfo cell with
        | some a =>
            rw [hvalue] at hcontent
            cases hcontent
            exact explains_value hsamp hfirst hfixed
              ((SyncInfo.id_of_fixed hkept.1.fixed).trans hid)
              ((htraced.laid.infos sinfo hmem).laidOut.of_fixed hkept.1.fixed) hstored.within hvalue
        | none =>
            rw [hvalue] at hcontent
            dsimp only at hcontent
            by_cases hlag : cell = state.sinfo.sampleSRIndex
            · rw [hlag, List.getElem?_set] at hcontent
              rw [if_pos rfl] at hcontent
              split at hcontent
              · cases hcontent
                exact .offset hfirst (hlag.trans (SyncInfo.sampleSRIndex_of_fixed hfixed)) _
              · cases hcontent
            · rw [List.getElem?_set_ne (Ne.symm hlag)] at hcontent
              exact hbefore.explains cell content hcontent
      · rw [Function.update_of_ne hirec] at hrecord
        exact hreached hkept _ _ hrecord

/-- One call, of a sample that is one of those. -/
theorem call {action : SyncCall α} {after : SyncSource α}
    (hsamp : ∀ samp, action = .receive samp → samp ∈ samples)
    (hcall : source.call action = some after) : TracedSource vars start samples after := by
  cases action with
  | flush =>
      cases hcall
      exact htraced.sent.sent
  | receive samp =>
      unfold SyncSource.call at hcall
      dsimp only at hcall
      cases hreceive : source.receive samp with
      | error fault =>
          rw [hreceive] at hcall
          cases hcall
      | ok r =>
          rw [hreceive] at hcall
          cases hcall
          obtain rfl | ⟨last, hshipped, hlast, hcur, hr⟩ := htraced.laid.receive_cases hreceive
          · exact htraced
          · have hlastTraced := (htraced.withCurrent samp.timeTag).shipped hshipped
            obtain rfl | ⟨sinfo, hfind, hplaced⟩ := hr
            · exact hlastTraced
            · exact hlastTraced.put (hsamp samp rfl) (List.mem_of_find?_eq_some hfind)
                (by simpa using List.find?_some hfind) hcur hplaced

end TracedSource

end Steps

/-- The samples of some calls. -/
def samplesOf (actions : List (SyncCall α)) : List (SyncSample α) :=
  actions.filterMap fun action =>
    match action with
    | .receive samp => some samp
    | .flush => none

/-- **Every record of a run is traced.** -/
theorem traced_of_runSteps {vars : List TaggedVariable} {start source : SyncSource α}
    {actions : List (SyncCall α)} (hinit : SyncSource.init vars = .ok start)
    (hrun : runSteps SyncSource.call start actions = some source) :
    TracedSource vars start (samplesOf actions) source := by
  obtain ⟨-, -, -, hrecords, -, hdistributed⟩ := init_spec hinit
  have hstart : TracedSource vars start (samplesOf actions) start := by
    refine ⟨SyncSource.laid_init hinit, rfl, fun sinfo hmem => ⟨sinfo, hmem, rfl⟩, ?_, ?_⟩
    · intro irec record hrecord
      rw [hrecords] at hrecord
      cases hrecord
    · intro record hmem
      rw [hdistributed] at hmem
      cases hmem
  refine runSteps_invariant hrun hstart fun before action after hmem htraced hcall => ?_
  refine htraced.call ?_ hcall
  rintro samp rfl
  exact List.mem_filterMap.mpr ⟨_, hmem, rfl⟩

end Nidas.Dynld
