import Nidas.Dynld.SyncHeaderAgreement
import Nidas.Dynld.SyncProvenance
import Nidas.Lib.CountedLoops

/-!
# Printing the sync records

`sync_dump` (`apps/sync_dump.cc`) reads the header and the records of a source, and prints for every
variable the values of its slots with their times.  It uses nothing but what
`SyncRecordReader` has found in the header.  For all records that a source distributes in a
run it reads inside of them, and what it prints for a variable are values of that variable
(`dumpRecords_of_run`).
-/

namespace Nidas.Apps.SyncDump

open Lib Dynld Dynld.SyncHeader

variable {α : Type}

/-! ## Printing -/

/-- A line of a variable: the time, and the values of a slot. -/
structure DumpLine (α : Type) where
  time : ℤ
  values : List (Cell α)
  deriving DecidableEq, Repr

/-- An offset of type `int` as a `size_t`. -/
def sizeOf (offset : ℤ) : ℕ := (offset % 2 ^ 64).toNat

/-- The time offset of a cell.  It is no value of a variable. -/
def lagUsecs : Cell α → Option ℤ
  | .nan => some 0
  | .offset usec => some usec
  | .value _ => none

/-- The slots of a variable, from one on. -/
def dumpSlots (buffer : List (Cell α)) (var : SyncRecordVariable) (deltatUsec : ℤ) :
    ℕ → ℕ → ℤ → Option (List (DumpLine α))
  | 0, _, _ => some []
  | count + 1, i, tt => do
      let values ← (List.range var.length).mapM fun j =>
        buffer[sizeOf var.syncRecOffset + i * var.length + j]?
      let lines ← dumpSlots buffer var deltatUsec count (i + 1) (tt + deltatUsec)
      pure (⟨tt, values⟩ :: lines)

/-- The part of `SyncDumper::run` for a variable. -/
def dumpVariable (tt0 : ℤ) (buffer : List (Cell α)) (var : SyncRecordVariable) :
    Option (List (DumpLine α)) := do
  let lag ← buffer[sizeOf var.lagOffset]?
  let usecs ← lagUsecs lag
  dumpSlots buffer var (usecsPerSlot var.rate) ⌈var.rate⌉.toNat 0 (tt0 + usecs)

/-- `SyncRecordReader::read` of the data of a record -/
def readData (len : ℕ) (buffer data : List (Cell α)) : List (Cell α) :=
  data.take len ++ buffer.drop (min len data.length)

/-- `SyncDumper::run`, for some records. -/
def dumpRecords (numValues : ℕ) (vars : List SyncRecordVariable) :
    List (Cell α) → List (SyncRecord α) → Option (List (List (List (DumpLine α))))
  | _, [] => some []
  | buffer, record :: records => do
      let lines ← vars.mapM (dumpVariable record.timeTag (readData numValues buffer record.data))
      let rest ← dumpRecords numValues vars (readData numValues buffer record.data) records
      pure (lines :: rest)

/-! ## The places of a header -/

section Places

variable {start : SyncSource α} {vars : List HeaderVariable}

theorem contiguous_eq {index last : ℕ} {infos : List SyncInfo} (h : Contiguous index infos last)
    {first second : SyncInfo} (hfirst : first ∈ infos) (hsecond : second ∈ infos) {cell : ℕ}
    (hcell : first.sampleSRIndex ≤ cell ∧
      cell < first.sampleSRIndex + 1 + first.varLengths.sum * first.nSlots.toNat)
    (hcell' : second.sampleSRIndex ≤ cell ∧
      cell < second.sampleSRIndex + 1 + second.varLengths.sum * second.nSlots.toNat) :
    first = second := by
  have hlater : ∀ {index last : ℕ} {infos : List SyncInfo}, Contiguous index infos last →
      ∀ sinfo ∈ infos, index ≤ sinfo.sampleSRIndex := by
    intro index last infos h
    induction infos generalizing index with
    | nil => simp
    | cons sinfo infos ih =>
        obtain ⟨hindex, hrest⟩ := h
        refine List.forall_mem_cons.mpr ⟨hindex.ge, fun other hother => ?_⟩
        have := ih hrest other hother
        omega
  induction infos generalizing index with
  | nil => cases hfirst
  | cons sinfo infos ih =>
      obtain ⟨hindex, hrest⟩ := h
      have hbehind := hlater hrest
      rcases List.mem_cons.mp hfirst with heq | hmem
      · rcases List.mem_cons.mp hsecond with heq' | hmem'
        · exact heq.trans heq'.symm
        · have := hbehind second hmem'
          subst heq
          omega
      · rcases List.mem_cons.mp hsecond with heq' | hmem'
        · have := hbehind first hmem
          subst heq'
          omega
        · exact ih hrest hmem hmem'

/-- A variable with its place, and what is known of the layout there. -/
structure Sits (start : SyncSource α) (vars : List HeaderVariable) (sinfo : SyncInfo) (k : ℕ)
    (var : HeaderVariable) (record : SyncRecordVariable) : Prop where
  mem : sinfo ∈ start.infos
  id : var.id = sinfo.id
  laidOut : sinfo.LaidOut start.window.recSize
  variable_eq : (variablesIn vars sinfo)[k]? = some var
  varLength : sinfo.varLengths[k]? = some var.length
  length : record.length = var.length
  lag : sizeOf record.lagOffset = sinfo.sampleSRIndex
  index : sinfo.varSRIndex[k]? = some (sizeOf record.syncRecOffset)
  slots : ⌈record.rate⌉.toNat = sinfo.nSlots.toNat

theorem exists_sits (hinit : SyncSource.init (vars.map HeaderVariable.toTaggedVariable) = .ok start)
    (hrates : RatesReadBack vars) (hfits : start.window.recSize < 2 ^ 31) {var : HeaderVariable}
    {record : SyncRecordVariable} (hfound : FoundAs vars start.infos var record) :
    ∃ sinfo k, Sits start vars sinfo k var record := by
  obtain ⟨sinfo, hsinfo, k, index, hk, hindex, rfl⟩ := hfound
  have hgroup := (laidOutFor_init hinit hrates).grouped sinfo hsinfo
  have hlaid := ((SyncSource.laid_init hinit).infos sinfo hsinfo).laidOut
  have hle := hlaid.le_recSize
  have hlength : sinfo.varLengths[k]? = some var.length := by
    rw [hgroup.varLengths, List.getElem?_map, hk]
    rfl
  have hinside : index ≤ start.window.recSize := by
    rw [hlaid.indices,
      getElem?_offsets _ _ _ _ (List.getElem?_eq_some_iff.mp hlength).1] at hindex
    have hsum := sum_take_le hlength (List.getElem?_eq_some_iff.mp hlength).1
    rw [List.take_length] at hsum
    have hmul := Nat.mul_le_mul_right sinfo.nSlots.toNat hsum
    rw [Nat.add_mul] at hmul
    have hstart := Option.some.inj hindex
    omega
  have hcast : ∀ n : ℕ, n < 2 ^ 31 → sizeOf n = n := by
    intro n hn
    unfold sizeOf
    omega
  refine ⟨sinfo, k, hsinfo, (mem_variablesIn (List.mem_of_getElem? hk)).2, hlaid, hk, hlength, rfl,
    hcast _ (by omega), ?_, ?_⟩
  · rw [hindex]
    exact congrArg some (hcast index (by omega)).symm
  · rw [hgroup.nSlots]

section Sits

variable {sinfo : SyncInfo} {k : ℕ} {var : HeaderVariable} {record : SyncRecordVariable}
  (hsits : Sits start vars sinfo k var record)

include hsits

/-- The cells that are printed are those of the slots of the variable. -/
theorem Sits.isSlotCell {i j : ℕ} (hi : i < ⌈record.rate⌉.toNat) (hj : j < record.length) :
    sinfo.IsSlotCell k i j (sizeOf record.syncRecOffset + i * record.length + j) := by
  rw [hsits.length] at hj ⊢
  refine ⟨sizeOf record.syncRecOffset, var.length, hsits.index, hsits.varLength, hj,
    hsits.slots ▸ hi, ?_⟩
  rw [Nat.mul_comm]

/-- A cell that can have a value of this variable has no value of another one. -/
theorem Sits.of_explains (hcontiguous : Contiguous 0 start.infos start.window.recSize)
    {samples : List (SyncSample α)} {i j cell : ℕ} (hcell : sinfo.IsSlotCell k i j cell)
    (hlaidOut : ∀ other ∈ start.infos, other.LaidOut start.window.recSize)
    {content : Cell α} (hexplains : Explains start.infos samples cell content) :
    content = .nan ∨ ∃ samp ∈ samples, ∃ a, samp.id = sinfo.id ∧ content = .value a ∧
      samp.data[(sinfo.varLengths.take k).sum + j]? = some a := by
  have hinside := hcell.inside hsits.laidOut
  cases hexplains with
  | nan => exact .inl rfl
  | offset hother hlag usec =>
      next other =>
      -- the time offsets of other samples are behind or in front of the cells of this one
      have hsame := contiguous_eq hcontiguous hsits.mem hother ⟨hinside.1.le, hinside.2⟩
        ⟨hlag.ge, by omega⟩
      subst hsame
      omega
  | value hother hvalueCell hsamp hid hvalue =>
      next other k' islot' j' samp a =>
      have hotherInside := hvalueCell.inside (hlaidOut other hother)
      have hsame := contiguous_eq hcontiguous hsits.mem hother ⟨hinside.1.le, hinside.2⟩
        ⟨hotherInside.1.le, hotherInside.2⟩
      subst hsame
      obtain ⟨rfl, rfl, rfl⟩ := hcell.unique hsits.laidOut hvalueCell
      exact .inr ⟨samp, hsamp, a, hid, rfl, hvalue⟩

/-- There is a time offset where it is read, or nothing. -/
theorem Sits.exists_lagUsecs (hcontiguous : Contiguous 0 start.infos start.window.recSize)
    {samples : List (SyncSample α)}
    (hlaidOut : ∀ other ∈ start.infos, other.LaidOut start.window.recSize)
    {content : Cell α} (hexplains : Explains start.infos samples sinfo.sampleSRIndex content) :
    ∃ usecs, lagUsecs content = some usecs := by
  cases hexplains with
  | nan => exact ⟨0, rfl⟩
  | offset _ _ usec => exact ⟨usec, rfl⟩
  | value hother hvalueCell hsamp hid hvalue =>
      next other k' islot' j' samp a =>
      have hotherInside := hvalueCell.inside (hlaidOut other hother)
      have hsame := contiguous_eq hcontiguous hsits.mem hother ⟨le_rfl, by omega⟩
        ⟨hotherInside.1.le, hotherInside.2⟩
      subst hsame
      omega

end Sits

end Places

/-! ## What is printed -/

/-- The values of a slot. -/
theorem exists_values {data : List (Cell α)} {from' count : ℕ} (hle : from' + count ≤ data.length) :
    ∃ values, ((List.range count).mapM fun j => data[from' + j]?) = some values ∧
      values.length = count ∧ ∀ (j : ℕ) (content : Cell α), values[j]? = some content →
        data[from' + j]? = some content := by
  have hall : ∀ j ∈ List.range count, ∃ content, data[from' + j]? = some content ∧
      data[from' + j]? = some content := by
    intro j hj
    have hlt := List.mem_range.mp hj
    exact ⟨data[from' + j], List.getElem?_eq_getElem (by omega),
      List.getElem?_eq_getElem (by omega)⟩
  obtain ⟨values, hvalues, hforall⟩ := exists_mapM_eq_some hall
  have hlength := hforall.length_eq
  rw [List.length_range] at hlength
  refine ⟨values, hvalues, hlength.symm, fun j content hcontent => ?_⟩
  obtain ⟨hj, hget⟩ := List.getElem?_eq_some_iff.mp hcontent
  have hcell := hforall.get (i := j) (by simpa [hlength] using hj) hj
  simp only [List.get_eq_getElem, List.getElem_range] at hcell
  rw [hcell, hget]

/-- The lines of some slots. -/
theorem exists_dumpSlots {data : List (Cell α)} {found : SyncRecordVariable} (deltatUsec : ℤ)
    {count i : ℕ}
    (hle : sizeOf found.syncRecOffset + (i + count) * found.length ≤ data.length) (tt : ℤ) :
    ∃ lines, dumpSlots data found deltatUsec count i tt = some lines ∧ lines.length = count ∧
      ∀ (m : ℕ) (line : DumpLine α), lines[m]? = some line →
        line.time = tt + m * deltatUsec ∧ line.values.length = found.length ∧
          ∀ (j : ℕ) (content : Cell α), line.values[j]? = some content →
            data[sizeOf found.syncRecOffset + (i + m) * found.length + j]? = some content := by
  induction count generalizing i tt with
  | zero => exact ⟨[], rfl, rfl, by simp⟩
  | succ count ih =>
      have hsplit : (i + (count + 1)) * found.length =
          i * found.length + found.length + count * found.length := by ring
      have hrest : (i + 1 + count) * found.length = (i + (count + 1)) * found.length := by
        congr 1
        omega
      obtain ⟨values, hvalues, hlength, hcells⟩ := @exists_values _ data
        (sizeOf found.syncRecOffset + i * found.length) found.length (by omega)
      obtain ⟨lines, hlines, hcount, hall⟩ := @ih (i + 1) (by rw [hrest]; exact hle)
        (tt + deltatUsec)
      refine ⟨⟨tt, values⟩ :: lines, ?_, by rw [List.length_cons, hcount], ?_⟩
      · rw [dumpSlots, hvalues]
        dsimp only [Option.bind_eq_bind, Option.bind_some]
        rw [hlines]
        rfl
      · intro m line hline
        cases m with
        | zero =>
            obtain rfl : ⟨tt, values⟩ = line := by simpa using hline
            refine ⟨by simp, hlength, fun j content hcontent => ?_⟩
            rw [Nat.add_zero]
            exact hcells j content hcontent
        | succ m =>
            obtain ⟨htime, hvaluesLength, hcontents⟩ := hall m line (by simpa using hline)
            refine ⟨?_, hvaluesLength, fun j content hcontent => ?_⟩
            · rw [htime]
              push_cast
              ring
            · have hsame : i + (m + 1) = i + 1 + m := by omega
              rw [hsame]
              exact hcontents j content hcontent

/-- What is printed of a variable: as many lines as it has slots, at equal intervals from the time
offset of its sample on, with nothing but values that samples have for the variable. -/
structure PrintedFor (samples : List (SyncSample α)) (record : SyncRecord α) (var : HeaderVariable)
    (found : SyncRecordVariable) (lines : List (DumpLine α)) : Prop where
  count : lines.length = ⌈found.rate⌉.toNat
  lines : ∃ lag usecs, record.data[sizeOf found.lagOffset]? = some lag ∧
    lagUsecs lag = some usecs ∧ ∀ (i : ℕ) (line : DumpLine α), lines[i]? = some line →
      line.time = record.timeTag + usecs + i * usecsPerSlot found.rate ∧
      line.values.length = var.length ∧
      ∀ (j : ℕ) (content : Cell α), line.values[j]? = some content →
        content = .nan ∨ ∃ samp ∈ samples, ∃ a, samp.id = var.id ∧ content = .value a ∧
          samp.data[var.position + j]? = some a

section Record

variable {start : SyncSource α} {vars : List HeaderVariable} {samples : List (SyncSample α)}
  {record : SyncRecord α}

/-- The values in front of a variable are those of the variables in front of it. -/
theorem Sits.position (hkept : PositionsKept (vars.map HeaderVariable.toTaggedVariable))
    {sinfo : SyncInfo} {k : ℕ} {var : HeaderVariable} {found : SyncRecordVariable}
    (hsits : Sits start vars sinfo k var found)
    (hlaid : sinfo.Laid (vars.map HeaderVariable.toTaggedVariable) start.window.recSize)
    (hpos : 0 < var.length) : (sinfo.varLengths.take k).sum = var.position := by
  have hmap := map_variablesIn vars sinfo
  have hget : (variablesOf sinfo.id (vars.map HeaderVariable.toTaggedVariable))[k]? =
      some var.toTaggedVariable := by
    rw [hmap, List.getElem?_map, hsits.variable_eq]
    rfl
  obtain ⟨hk, hgetElem⟩ := List.getElem?_eq_some_iff.mp hget
  have hsplit : variablesOf sinfo.id (vars.map HeaderVariable.toTaggedVariable) =
      (variablesOf sinfo.id (vars.map HeaderVariable.toTaggedVariable)).take k ++
        var.toTaggedVariable ::
          (variablesOf sinfo.id (vars.map HeaderVariable.toTaggedVariable)).drop (k + 1) := by
    rw [← hgetElem, List.cons_getElem_drop_succ, List.take_append_drop]
  rw [hlaid.varLengths, ← List.map_take]
  exact hkept _ _ _ _ hsplit hpos

/-- The lines of a variable of a traced record have in them what the record has in its slots. -/
theorem exists_lines
    (hinit : SyncSource.init (vars.map HeaderVariable.toTaggedVariable) = .ok start)
    (hrates : RatesReadBack vars) {sinfo : SyncInfo} {k : ℕ} {var : HeaderVariable}
    {found : SyncRecordVariable} (hsits : Sits start vars sinfo k var found)
    (htraced : Traced start samples record) :
    ∃ lines lag usecs, dumpVariable record.timeTag record.data found = some lines ∧
      lines.length = ⌈found.rate⌉.toNat ∧ record.data[sizeOf found.lagOffset]? = some lag ∧
      lagUsecs lag = some usecs ∧ ∀ (i : ℕ) (line : DumpLine α), lines[i]? = some line →
        line.time = record.timeTag + usecs + i * usecsPerSlot found.rate ∧
        line.values.length = found.length ∧
        ∀ (j : ℕ) (content : Cell α), line.values[j]? = some content →
          record.data[sizeOf found.syncRecOffset + i * found.length + j]? = some content := by
  have hlaidOut := fun other hother =>
    ((SyncSource.laid_init hinit).infos other hother).laidOut
  have hle := hsits.laidOut.le_recSize
  have hlag : sinfo.sampleSRIndex < record.data.length := by
    rw [htraced.length]
    omega
  obtain ⟨usecs, husecs⟩ := hsits.exists_lagUsecs (laidOutFor_init hinit hrates).contiguous hlaidOut
    (htraced.explains _ _ (List.getElem?_eq_getElem hlag))
  have hroom : sizeOf found.syncRecOffset + (0 + ⌈found.rate⌉.toNat) * found.length ≤
      record.data.length := by
    have hindex := hsits.index
    have hsum := sum_take_le hsits.varLength (List.getElem?_eq_some_iff.mp hsits.varLength).1
    rw [List.take_length] at hsum
    have hmul := Nat.mul_le_mul_right sinfo.nSlots.toNat hsum
    rw [Nat.add_mul] at hmul
    rw [hsits.laidOut.indices, getElem?_offsets _ _ _ _
      (List.getElem?_eq_some_iff.mp hsits.varLength).1] at hindex
    have hstart := Option.some.inj hindex
    rw [htraced.length, Nat.zero_add, hsits.slots, hsits.length, Nat.mul_comm]
    omega
  obtain ⟨lines, hlines, hcount, hall⟩ :=
    exists_dumpSlots (usecsPerSlot found.rate) hroom (record.timeTag + usecs)
  refine ⟨lines, record.data[sinfo.sampleSRIndex], usecs, ?_, hcount, ?_, husecs, ?_⟩
  · unfold dumpVariable
    rw [hsits.lag, List.getElem?_eq_getElem hlag]
    dsimp only [Option.bind_eq_bind, Option.bind_some]
    rw [husecs]
    exact hlines
  · rw [hsits.lag, List.getElem?_eq_getElem hlag]
  · intro i line hline
    obtain ⟨htime, hlength, hcontents⟩ := hall i line hline
    rw [Nat.zero_add] at hcontents
    exact ⟨htime, hlength, hcontents⟩

/-- **A variable of a traced record is printed.** -/
theorem exists_dumpVariable
    (hinit : SyncSource.init (vars.map HeaderVariable.toTaggedVariable) = .ok start)
    (hrates : RatesReadBack vars) (hfits : start.window.recSize < 2 ^ 31)
    (hkept : PositionsKept (vars.map HeaderVariable.toTaggedVariable)) {var : HeaderVariable}
    {found : SyncRecordVariable} (hfound : FoundAs vars start.infos var found)
    (htraced : Traced start samples record) :
    ∃ lines, dumpVariable record.timeTag record.data found = some lines ∧
      PrintedFor samples record var found lines := by
  obtain ⟨sinfo, k, hsits⟩ := exists_sits hinit hrates hfits hfound
  obtain ⟨lines, lag, usecs, hlines, hcount, hlag, husecs, hall⟩ :=
    exists_lines hinit hrates hsits htraced
  have hlaidAll := (SyncSource.laid_init hinit).infos
  refine ⟨lines, hlines, hcount, lag, usecs, hlag, husecs, fun i line hline => ?_⟩
  obtain ⟨htime, hlength, hcontents⟩ := hall i line hline
  refine ⟨htime, hlength.trans hsits.length, fun j content hcontent => ?_⟩
  have hi : i < ⌈found.rate⌉.toNat := hcount ▸ (List.getElem?_eq_some_iff.mp hline).1
  have hj : j < found.length := hlength ▸ (List.getElem?_eq_some_iff.mp hcontent).1
  obtain hnan | ⟨samp, hsamp, a, hid, hvalue, hget⟩ := hsits.of_explains
    (laidOutFor_init hinit hrates).contiguous (hsits.isSlotCell hi hj)
    (fun other hother => (hlaidAll other hother).laidOut)
    (htraced.explains _ _ (hcontents j content hcontent))
  · exact .inl hnan
  · refine .inr ⟨samp, hsamp, a, hid.trans hsits.id.symm, hvalue, ?_⟩
    rw [← hsits.position hkept (hlaidAll sinfo hsits.mem)
      (Nat.zero_lt_of_lt (hsits.length ▸ hj))]
    exact hget

end Record

/-! ## Whole runs -/

theorem forall₂_through {β γ δ : Type} {R : β → γ → Prop} {S : γ → δ → Prop} {first : List β}
    {second : List γ} {third : List δ} (h : List.Forall₂ R first second)
    (h' : List.Forall₂ S second third) :
    List.Forall₂ (fun b d => ∃ c ∈ second, R b c ∧ S c d) first third := by
  induction h generalizing third with
  | nil =>
      cases h'
      exact .nil
  | cons hfirst _ ih =>
      cases h' with
      | cons hsecond hrest =>
          refine .cons ⟨_, List.mem_cons_self, hfirst, hsecond⟩ ((ih hrest).imp ?_)
          rintro b d ⟨c, hc, hR, hS⟩
          exact ⟨c, List.mem_cons_of_mem _ hc, hR, hS⟩

section Run

variable {start source : SyncSource α} {flight : Flight} {vars : List HeaderVariable}

/-- A record is printed, in the order of the variables. -/
def RecordPrinted (vars : List HeaderVariable) (found : List SyncRecordVariable)
    (samples : List (SyncSample α)) (record : SyncRecord α) (printed : List (List (DumpLine α))) :
    Prop :=
  List.Forall₂ (fun var lines => ∃ read ∈ found, read.name = var.name ∧
    PrintedFor samples record var read lines) vars printed

theorem exists_dumpRecord
    (hinit : SyncSource.init (vars.map HeaderVariable.toTaggedVariable) = .ok start)
    (hrates : RatesReadBack vars) (hfits : start.window.recSize < 2 ^ 31)
    (hkept : PositionsKept (vars.map HeaderVariable.toTaggedVariable))
    {found : List SyncRecordVariable} (hfound : List.Forall₂ (FoundAs vars start.infos) vars found)
    {samples : List (SyncSample α)} {record : SyncRecord α}
    (htraced : Traced start samples record) :
    ∃ printed, found.mapM (dumpVariable record.timeTag record.data) = some printed ∧
      RecordPrinted vars found samples record printed := by
  have hone : ∀ {var read}, FoundAs vars start.infos var read → ∃ lines,
      dumpVariable record.timeTag record.data read = some lines ∧
        PrintedFor samples record var read lines :=
    fun h => exists_dumpVariable hinit hrates hfits hkept h htraced
  have hall : ∀ read ∈ found, ∃ lines,
      dumpVariable record.timeTag record.data read = some lines ∧
        ∀ var, FoundAs vars start.infos var read →
          PrintedFor samples record var read lines := by
    intro read hread
    obtain ⟨i, hi⟩ := List.mem_iff_getElem?.mp hread
    obtain ⟨hlt, hget⟩ := List.getElem?_eq_some_iff.mp hi
    have hlt' : i < vars.length := hfound.length_eq ▸ hlt
    have hsource : FoundAs vars start.infos vars[i] read := by
      rw [← hget]
      exact hfound.get hlt' hlt
    obtain ⟨lines, hlines, -⟩ := hone hsource
    refine ⟨lines, hlines, fun var hvar => ?_⟩
    obtain ⟨same, hsame, hprinted⟩ := hone hvar
    rw [hlines] at hsame
    cases hsame
    exact hprinted
  obtain ⟨printed, hprinted, hforall⟩ := exists_mapM_eq_some hall
  refine ⟨printed, hprinted, (forall₂_through hfound hforall).imp ?_⟩
  rintro var lines ⟨read, hread, hvar, hlines⟩
  refine ⟨read, hread, ?_, hlines var hvar⟩
  obtain ⟨sinfo, -, k, index, -, -, rfl⟩ := hvar
  rfl

theorem readData_eq {len : ℕ} {buffer data : List (Cell α)} (hbuffer : buffer.length = len)
    (hdata : data.length = len) : readData len buffer data = data := by
  unfold readData
  rw [List.take_of_length_le hdata.le, List.drop_eq_nil_of_le (by omega), List.append_nil]

theorem exists_dumpRecords
    (hinit : SyncSource.init (vars.map HeaderVariable.toTaggedVariable) = .ok start)
    (hrates : RatesReadBack vars) (hfits : start.window.recSize < 2 ^ 31)
    (hkept : PositionsKept (vars.map HeaderVariable.toTaggedVariable))
    {found : List SyncRecordVariable} (hfound : List.Forall₂ (FoundAs vars start.infos) vars found)
    {samples : List (SyncSample α)} {records : List (SyncRecord α)}
    (htraced : ∀ record ∈ records, Traced start samples record) {buffer : List (Cell α)}
    (hbuffer : buffer.length = start.window.recSize) :
    ∃ output, dumpRecords start.window.recSize found buffer records = some output ∧
      List.Forall₂ (RecordPrinted vars found samples) records output := by
  induction records generalizing buffer with
  | nil => exact ⟨[], rfl, .nil⟩
  | cons record records ih =>
      obtain ⟨hfirst, hrest⟩ := List.forall_mem_cons.mp htraced
      obtain ⟨printed, hprinted, hall⟩ := exists_dumpRecord hinit hrates hfits hkept hfound hfirst
      obtain ⟨output, houtput, hmore⟩ := ih hrest hfirst.length
      refine ⟨printed :: output, ?_, .cons hall hmore⟩
      rw [dumpRecords, readData_eq hbuffer hfirst.length, hprinted]
      dsimp only [Option.bind_eq_bind, Option.bind_some]
      rw [houtput]
      rfl

/-- The time offset of a sample is no value of it. -/
theorem valueFor_lag (samp : SyncSample α) (sinfo : SyncInfo) :
    samp.valueFor sinfo sinfo.sampleSRIndex = none := by
  unfold SyncSample.valueFor
  rw [cellSource_of_lt (Nat.lt_succ_self _)]
  simp

/-- A value of an accepted sample is in its slot. -/
theorem content_of_receive {after : SyncSource α} {samp : SyncSample α}
    (hkept : PositionsKept (vars.map HeaderVariable.toTaggedVariable))
    {sinfo first : SyncInfo} {k : ℕ} {var : HeaderVariable} {found : SyncRecordVariable}
    (hsits : Sits start vars first k var found)
    (hfirst : first.Laid (vars.map HeaderVariable.toTaggedVariable) start.window.recSize)
    (hfixed : sinfo.fixed = first.fixed) (hwithin : sinfo.Within)
    (hsinfo : sinfo.Laid (vars.map HeaderVariable.toTaggedVariable) after.window.recSize)
    (hcopied : samp.copied = true) {j : ℕ} (hj : j < var.length) :
    samp.valueFor sinfo (sizeOf found.syncRecOffset + sinfo.islot.toNat * found.length + j) =
      samp.data[var.position + j]? := by
  have hslot : sinfo.islot.toNat < sinfo.nSlots.toNat := by
    have := hwithin.1
    have := hwithin.2
    omega
  have hlengths : sinfo.varLengths = first.varLengths := by
    simpa [SyncInfo.fixed] using congrArg SyncInfo.varLengths hfixed
  have hindices : sinfo.varSRIndex = first.varSRIndex := by
    simpa [SyncInfo.fixed] using congrArg SyncInfo.varSRIndex hfixed
  have hlen : sinfo.varLengths[k]? = some var.length := by rw [hlengths, hsits.varLength]
  have hcell : sinfo.IsSlotCell k sinfo.islot.toNat j
      (sizeOf found.syncRecOffset + sinfo.islot.toNat * found.length + j) := by
    refine ⟨_, var.length, by rw [hindices]; exact hsits.index, hlen, hj, hslot, ?_⟩
    rw [hsits.length, Nat.mul_comm]
  obtain ⟨len, hlen', -, -, hplace⟩ := (SyncInfo.isSlotCell_iff hsinfo.laidOut).mp hcell
  rw [hlen] at hlen'
  cases hlen'
  unfold SyncSample.valueFor
  rw [if_pos hcopied, hplace, cellSource_of_getElem? hslot hlen _ hj, Option.bind_some, hlengths,
    hsits.position hkept hfirst (Nat.zero_lt_of_lt hj)]

end Run

/-! ## The temperature -/

theorem named_of_temperature : ∀ var ∈ [temperature], Wordlike var.name ∧ var.name ≠ ['}'] ∧
    var.name ≠ [';'] := by
  exact fun var hvar => wordlike_of_test var (mem_of_temperature hvar)

theorem writable_of_temperature : ∀ var ∈ [temperature], Writable var ∧ var.InRange := by
  have hrange : ∀ var ∈ [temperature], var.InRange := by
    unfold HeaderVariable.InRange
    decide +kernel
  exact fun var hvar => ⟨writable_of_test var (mem_of_temperature hvar), hrange var hvar⟩

theorem positionsKept_temperature :
    PositionsKept ([temperature].map HeaderVariable.toTaggedVariable) := by
  intro id before var after hvars _
  have hlength : (variablesOf id ([temperature].map HeaderVariable.toTaggedVariable)).length ≤ 1 :=
    List.length_filter_le _ _
  have hmem : var ∈ variablesOf id ([temperature].map HeaderVariable.toTaggedVariable) := by
    rw [hvars]
    simp
  have hvar := List.mem_singleton.mp (List.mem_of_mem_filter hmem)
  rw [hvars, List.length_append, List.length_cons] at hlength
  have hnil : before = [] := List.length_eq_zero_iff.mp (by omega)
  rw [hnil, hvar]
  rfl

end Nidas.Apps.SyncDump
