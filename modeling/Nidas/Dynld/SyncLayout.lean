import Nidas.Dynld.SyncSlots

/-!
# The layout of a sync record

A sample has one value for the time offset in a record, followed by its variables, each of which
has a place for every slot (`offsets`).  Copying a sample to a slot goes through the variables and
through the values of the sample at the same time.  `cellSource` tells for a cell of the record which
value of the sample it gets; all that copying does follows from it (`getElem?_copyVariablesToRecord`).
-/

namespace Nidas.Dynld

open Lib

variable {α : Type*}

/-! ## Places of the variables -/

/-- Where the variables begin, with all their slots. -/
def offsets (nSlots : ℕ) : ℕ → List ℕ → List ℕ
  | _, [] => []
  | index, len :: rest => index :: offsets nSlots (index + len * nSlots) rest

theorem offsets_append (nSlots index : ℕ) (lengths : List ℕ) (len : ℕ) :
    offsets nSlots index (lengths ++ [len]) =
      offsets nSlots index lengths ++ [index + lengths.sum * nSlots] := by
  induction lengths generalizing index with
  | nil => simp [offsets]
  | cons first rest ih =>
      simp only [List.cons_append, offsets, ih, List.sum_cons, List.cons.injEq, true_and,
        List.append_cancel_left_eq, and_true]
      ring

theorem offsets_add (nSlots index shift : ℕ) (lengths : List ℕ) :
    offsets nSlots (index + shift) lengths = (offsets nSlots index lengths).map (· + shift) := by
  induction lengths generalizing index with
  | nil => rfl
  | cons first rest ih =>
      rw [offsets, offsets, List.map_cons, ← ih]
      congr 2
      ring

theorem getElem?_offsets (nSlots index : ℕ) (lengths : List ℕ) (k : ℕ) (hk : k < lengths.length) :
    (offsets nSlots index lengths)[k]? = some (index + (lengths.take k).sum * nSlots) := by
  induction lengths generalizing index k with
  | nil => simp at hk
  | cons first rest ih =>
      cases k with
      | zero => simp [offsets]
      | succ k =>
          simp only [offsets, List.getElem?_cons_succ, List.take_succ_cons, List.sum_cons]
          rw [ih _ k (by simpa using hk)]
          congr 1
          ring

/-- The variables of a sample lie one behind the other, behind the time offset. -/
structure SyncInfo.LaidOut (recSize : ℕ) (sinfo : SyncInfo) : Prop where
  indices : sinfo.varSRIndex =
    offsets sinfo.nSlots.toNat (sinfo.sampleSRIndex + 1) sinfo.varLengths
  le_recSize : sinfo.sampleSRIndex + 1 + sinfo.varLengths.sum * sinfo.nSlots.toNat ≤ recSize

theorem SyncInfo.LaidOut.of_fixed {recSize : ℕ} {sinfo other : SyncInfo}
    (hlaid : sinfo.LaidOut recSize) (hfixed : other.fixed = sinfo.fixed) :
    other.LaidOut recSize := by
  have hslots := nSlots_of_fixed hfixed
  have hlengths : other.varLengths = sinfo.varLengths := by
    simpa [fixed] using congrArg varLengths hfixed
  have hindices : other.varSRIndex = sinfo.varSRIndex := by
    simpa [fixed] using congrArg varSRIndex hfixed
  have hsample : other.sampleSRIndex = sinfo.sampleSRIndex := by
    simpa [fixed] using congrArg sampleSRIndex hfixed
  constructor
  · rw [hindices, hslots, hsample, hlengths]
    exact hlaid.indices
  · rw [hsample, hlengths, hslots]
    exact hlaid.le_recSize

/-! ## Copying -/

theorem length_storeAt {index : ℕ} {values data : List (Cell α)}
    (hle : index + values.length ≤ data.length) :
    (storeAt index values data).length = data.length := by
  simp only [storeAt, List.length_append, List.length_take, List.length_drop]
  omega

theorem getElem?_storeAt {index : ℕ} {values data : List (Cell α)}
    (hle : index + values.length ≤ data.length) (cell : ℕ) :
    (storeAt index values data)[cell]? =
      if index ≤ cell ∧ cell < index + values.length then values[cell - index]?
      else data[cell]? := by
  have htake : (data.take index).length = index := by
    rw [List.length_take]
    omega
  unfold storeAt
  split
  · next hin =>
      rw [List.getElem?_append_left (by simp only [List.length_append]; omega),
        List.getElem?_append_right (by omega), htake]
  · next hout =>
      by_cases hlt : cell < index
      · rw [List.getElem?_append_left (by simp only [List.length_append]; omega),
          List.getElem?_append_left (by omega), List.getElem?_take_of_lt hlt]
      · rw [List.getElem?_append_right (by simp only [List.length_append]; omega),
          List.getElem?_drop, List.length_append, htake]
        congr 1
        omega

/-- The value of a sample that is copied to a cell of the record, for a slot. -/
def cellSource (nSlots islot : ℕ) : ℕ → List ℕ → ℕ → Option ℕ
  | _, [], _ => none
  | index, len :: rest, cell =>
      if index + len * islot ≤ cell ∧ cell < index + len * islot + len then
        some (cell - (index + len * islot))
      else (cellSource nSlots islot (index + len * nSlots) rest cell).map (· + len)

theorem cellSource_of_lt {nSlots islot index cell : ℕ} (hlt : cell < index) (lengths : List ℕ) :
    cellSource nSlots islot index lengths cell = none := by
  induction lengths generalizing index with
  | nil => rfl
  | cons len rest ih =>
      rw [cellSource, if_neg (by omega), ih (by omega)]
      rfl

section

variable {nSlots islot recSize : ℕ} (hislot : islot < nSlots)

include hislot

theorem slot_le (len : ℕ) : len * islot + len ≤ len * nSlots := by
  calc len * islot + len = len * (islot + 1) := by ring
    _ ≤ len * nSlots := Nat.mul_le_mul_left len hislot

/-- **What copying does to a record**: it does not fail, and every cell gets the value of the sample
that is meant for it, if the sample has that value. -/
theorem getElem?_copyVariablesToRecord (lengths : List ℕ) (index : ℕ) (values : List α)
    (data : List (Cell α)) (hle : index + lengths.sum * nSlots ≤ recSize)
    (hlength : data.length = recSize) :
    ∃ copied, copyVariablesToRecord recSize islot (offsets nSlots index lengths) lengths values
        data = .ok copied ∧ copied.length = recSize ∧
      ∀ cell, copied[cell]? =
        match (cellSource nSlots islot index lengths cell).bind (values[·]?) with
        | some a => some (.value a)
        | none => data[cell]? := by
  induction lengths generalizing index values data with
  | nil => exact ⟨data, rfl, hlength, fun cell => rfl⟩
  | cons len rest ih =>
      rw [List.sum_cons, Nat.add_mul] at hle
      have hslot := slot_le hislot len
      unfold copyVariablesToRecord
      simp only [offsets]
      by_cases hnil : values = []
      · rw [if_pos hnil]
        refine ⟨data, rfl, hlength, fun cell => ?_⟩
        subst values
        cases cellSource nSlots islot index (len :: rest) cell <;> rfl
      · rw [if_neg hnil, if_pos (by omega)]
        have hstore : index + len * islot +
            (((values.take (min values.length len)).map Cell.value).length) ≤ data.length := by
          rw [List.length_map, List.length_take]
          omega
        obtain ⟨copied, hcopy, hcopied, hcells⟩ := ih (index + len * nSlots)
          (values.drop (min values.length len)) _ (by omega)
          ((length_storeAt hstore).trans hlength)
        refine ⟨copied, hcopy, hcopied, fun cell => ?_⟩
        rw [hcells, getElem?_storeAt hstore, cellSource, List.length_map, List.length_take,
          List.getElem?_map, List.getElem?_take]
        by_cases hin : index + len * islot ≤ cell ∧ cell < index + len * islot + len
        · -- a cell of the first variable: the others begin behind it
          rw [if_pos hin, cellSource_of_lt (by omega)]
          simp only [Option.bind_none, Option.bind_some]
          by_cases hvalue : cell - (index + len * islot) < values.length
          · rw [if_pos (by omega), if_pos (by omega), List.getElem?_eq_getElem hvalue]
            rfl
          · have hnone : values[cell - (index + len * islot)]? = none :=
              List.getElem?_eq_none (by omega)
            rw [if_neg (by omega), hnone]
        · rw [if_neg hin, if_neg (by omega)]
          cases cellSource nSlots islot (index + len * nSlots) rest cell with
          | none => rfl
          | some source =>
              simp only [Option.bind_some, Option.map_some, List.getElem?_drop]
              by_cases hshort : values.length < len
              · have hnone : values[min values.length len + source]? = none :=
                  List.getElem?_eq_none (by omega)
                have hnone' : values[source + len]? = none := List.getElem?_eq_none (by omega)
                rw [hnone, hnone']
              · rw [min_eq_right (by omega), Nat.add_comm len source]

end

/-! ## Storing a sample -/

/-- The value of a sample that goes to a cell of its record. -/
def SyncSample.valueFor (samp : SyncSample α) (sinfo : SyncInfo) (cell : ℕ) : Option α :=
  if samp.copied then
    (cellSource sinfo.nSlots.toNat sinfo.islot.toNat (sinfo.sampleSRIndex + 1) sinfo.varLengths
      cell).bind (samp.data[·]?)
  else none

/-- A sample has been stored in the slot and the record of its `SyncInfo`. -/
structure Stored (samp : SyncSample α) (state : SlotState α) (record : SyncRecord α)
    (window : SyncWindow α) : Prop where
  within : state.sinfo.Within
  record_eq : state.window.records state.sinfo.irec = some record
  window_eq : ∃ data, data.length = record.data.length ∧
    window = { state.window with
      records := Function.update state.window.records state.sinfo.irec
        (some { record with data := data }) } ∧
    ∀ cell, data[cell]? =
      match samp.valueFor state.sinfo cell with
      | some a => some (.value a)
      | none =>
          (record.data.set state.sinfo.sampleSRIndex (.offset state.sinfo.minDiff))[cell]?

/-- Storing a sample fails only if its slot is not one of the record. -/
theorem storeSample_outcome {fit : Prop} {samp : SyncSample α} {state : SlotState α}
    (hinv : state.window.Inv) (hallocated : state.window.Allocated state.sinfo.irec)
    (hlaid : state.sinfo.LaidOut state.window.recSize) (hwithin : fit → state.sinfo.Within) :
    Outcome (fun window => ∃ record, Stored samp state record window) (Excused fit)
      (storeSample samp state) := by
  obtain ⟨record, hrecord⟩ := hallocated.exists_record
  have hsized := hinv.sized _ record hrecord
  have hsample : state.sinfo.sampleSRIndex < state.window.recSize := by
    have := hlaid.le_recSize
    omega
  unfold storeSample
  dsimp only
  split
  · next hchecks =>
      have hslot : state.sinfo.islot.toNat < state.sinfo.nSlots.toNat := by omega
      rw [hrecord]
      dsimp only
      by_cases hcopied : samp.copied = true
      · obtain ⟨data, hcopy, hlength, hcells⟩ := getElem?_copyVariablesToRecord hslot
          state.sinfo.varLengths (state.sinfo.sampleSRIndex + 1) samp.data
          (record.data.set state.sinfo.sampleSRIndex (.offset state.sinfo.minDiff))
          hlaid.le_recSize (by rw [List.length_set, hsized])
        rw [if_pos hcopied, hlaid.indices, hcopy]
        refine ⟨record, ⟨hchecks.1, hchecks.2.1⟩, hrecord, data, by rw [hlength, hsized], rfl, ?_⟩
        intro cell
        rw [hcells, SyncSample.valueFor, if_pos hcopied]
      · rw [if_neg hcopied]
        refine ⟨record, ⟨hchecks.1, hchecks.2.1⟩, hrecord, _, List.length_set, rfl, ?_⟩
        intro cell
        rw [SyncSample.valueFor, if_neg hcopied]
  · next hchecks =>
      refine ⟨by simp, fun hfit => hchecks ?_⟩
      exact ⟨(hwithin hfit).1, (hwithin hfit).2, hsample⟩

namespace Stored

variable {samp : SyncSample α} {state : SlotState α} {record : SyncRecord α}
  {window : SyncWindow α} (hstored : Stored samp state record window)

include hstored

theorem current : window.current = state.window.current := by
  obtain ⟨data, -, rfl, -⟩ := hstored.window_eq
  rfl

theorem recSize : window.recSize = state.window.recSize := by
  obtain ⟨data, -, rfl, -⟩ := hstored.window_eq
  rfl

/-- The records are those before, but for their data. -/
theorem records_of {irec : Bool} {stored : SyncRecord α}
    (hrecord : window.records irec = some stored) :
    ∃ data, state.window.records irec = some { stored with data := data } ∧
      data.length = stored.data.length := by
  obtain ⟨data, hlength, rfl, -⟩ := hstored.window_eq
  by_cases hirec : irec = state.sinfo.irec
  · subst irec
    simp only [Function.update_self, Option.some.injEq] at hrecord
    subst stored
    exact ⟨record.data, hstored.record_eq, hlength.symm⟩
  · simp only [Function.update_of_ne hirec] at hrecord
    exact ⟨stored.data, hrecord, rfl⟩

theorem allocated_iff {irec : Bool} : window.Allocated irec ↔ state.window.Allocated irec := by
  obtain ⟨data, -, rfl, -⟩ := hstored.window_eq
  unfold SyncWindow.Allocated
  by_cases hirec : irec = state.sinfo.irec
  · subst irec
    simp [hstored.record_eq]
  · simp [hirec]

theorem syncTime (irec : Bool) : window.syncTime irec = state.window.syncTime irec := by
  cases hrecord : window.records irec with
  | none =>
      have hnone : ¬state.window.Allocated irec := by
        rw [← hstored.allocated_iff, SyncWindow.Allocated, hrecord]
        simp
      rw [SyncWindow.Allocated, Option.not_isSome_iff_eq_none] at hnone
      unfold SyncWindow.syncTime
      rw [hrecord, hnone]
  | some stored =>
      obtain ⟨data, hbefore, -⟩ := hstored.records_of hrecord
      rw [SyncWindow.syncTime_of_records hrecord, SyncWindow.syncTime_of_records hbefore]

theorem inv (hinv : state.window.Inv) : window.Inv where
  whole irec stored hrecord := by
    obtain ⟨data, hbefore, -⟩ := hstored.records_of hrecord
    have hwhole := hinv.whole irec _ hbefore
    exact hwhole
  sized irec stored hrecord := by
    obtain ⟨data, hbefore, hlength⟩ := hstored.records_of hrecord
    rw [hstored.recSize, ← hlength]
    exact hinv.sized irec _ hbefore
  apart stored hrecord := by
    rw [hstored.current] at hrecord ⊢
    obtain ⟨data, hbefore, -⟩ := hstored.records_of hrecord
    have hapart := hinv.apart _ hbefore
    rw [hstored.allocated_iff, hstored.syncTime]
    exact hapart

end Stored

end Nidas.Dynld
