import Nidas.Core.CalFlattening

/-!
# Reading a calibration file to its end

`readCF` is called until it raises an `EOFException`.  Between the calls the files that are open are
as `Valid` says, and every call returns what stands first in their stream, so that the records that
are read are those of the stream of the file.

The first call is different from the others, for nothing has been read ahead.  A file without
records is not found out by it: a record with the time `UTime::MAX` and without fields is returned.
-/

namespace Nidas.Core

open CalRecord

namespace CalFile

open CalStream

/-- What repeated calls of `readCF` return up to an `EOFException`, and the files that are open
then. -/
inductive ReadsTo : CalFile → List CalFile → List Returned → List CalFile → Prop
  | exception {cal : CalFile} {includes : List CalFile} {cal' : CalFile} {includes' : List CalFile}
      (hread : cal.readCFNoLock includes = (.eofException, cal', includes')) :
      ReadsTo cal includes [] (cal' :: includes')
  | record {cal : CalFile} {includes : List CalFile} {cal' : CalFile} {includes' : List CalFile}
      {returned : Returned} {more : List Returned} {final : List CalFile}
      (hread : cal.readCFNoLock includes = (.returned returned, cal', includes'))
      (hmore : ReadsTo cal' includes' more final) :
      ReadsTo cal includes (returned :: more) final

variable {cal : CalFile} {includes : List CalFile}

/-- There is one way to read to the end. -/
theorem ReadsTo.unique {read read' : List Returned} {final final' : List CalFile}
    (hreads : ReadsTo cal includes read final) (hreads' : ReadsTo cal includes read' final') :
    read = read' ∧ final = final' := by
  induction hreads generalizing read' final' with
  | exception hread =>
      cases hreads' with
      | exception hread' =>
          obtain ⟨-, rfl, rfl⟩ := Prod.mk.injEq .. ▸ hread.symm.trans hread'
          exact ⟨rfl, rfl⟩
      | record hread' hmore' => exact absurd (hread.symm.trans hread') (by simp)
  | record hread hmore ih =>
      cases hreads' with
      | exception hread' => exact absurd (hread.symm.trans hread') (by simp)
      | record hread' hmore' =>
          have hsame := hread.symm.trans hread'
          simp only [Prod.mk.injEq, CalResult.returned.injEq] at hsame
          obtain ⟨rfl, rfl, rfl⟩ := hsame
          obtain ⟨rfl, rfl⟩ := ih hmore'
          exact ⟨rfl, rfl⟩

/-- The records of the stream are read, and then there is an exception. -/
theorem readsTo_stream (hvalid : Valid cal includes) :
    ∃ final, ReadsTo cal includes ((stream cal includes).items.map CalItem.returned) final ∧
      ((∀ cal ∈ final, cal.eofState = true) ↔ (stream cal includes).exhausted = true) := by
  rcases hstream : stream cal includes with ⟨items, endPeek, exhausted⟩
  induction items generalizing cal includes with
  | nil =>
      have hyields := readCFNoLock_yields cal includes hvalid
      rcases hread : cal.readCFNoLock includes with ⟨result, cal', includes'⟩
      rw [hstream, hread] at hyields
      obtain ⟨hresult, hdone⟩ := hyields
      obtain rfl : result = .eofException := hresult
      exact ⟨cal' :: includes', .exception hread, hdone⟩
  | cons item items ih =>
      have hyields := readCFNoLock_yields cal includes hvalid
      rcases hread : cal.readCFNoLock includes with ⟨result, cal', includes'⟩
      rw [hstream, hread] at hyields
      obtain ⟨hresult, hvalid', hstream', -⟩ := hyields
      obtain rfl : result = .returned item.returned := hresult
      obtain ⟨final, hreads, hdone⟩ := ih hvalid' hstream'
      exact ⟨final, .record hread hreads, hdone⟩

/-- Only the first call counts. -/
theorem ReadsTo.congr {cal' : CalFile} {read : List Returned} {final : List CalFile}
    (hsame : cal.readCFNoLock includes = cal'.readCFNoLock includes)
    (hreads : ReadsTo cal includes read final) : ReadsTo cal' includes read final := by
  cases hreads with
  | exception hread => exact .exception (hsame ▸ hread)
  | record hread hmore => exact .record (hsame ▸ hread) hmore

/-! ## The first call -/

/-- A record that is not an include record. -/
theorem readCFNoLock_cal {time : ℤ} {fields : List String} (heof : cal.eofState = false)
    (hline : cal.firstTime.line = some (.cal time fields)) :
    cal.readCFNoLock [] =
      (.returned (cal.firstTime.nextTime, fields), cal.firstTime.readTime, []) := by
  rw [readCFNoLock, dif_neg (by simp [heof])]
  split
  · next hline' => exact absurd (hline.symm.trans hline') (by simp)
  · next hline' =>
      have hsame := hline.symm.trans hline'
      simp only [Option.some.injEq, CalRecord.cal.injEq] at hsame
      rw [hsame.2]
  · next hline' => exact absurd (hline.symm.trans hline') (by simp)

theorem readCFNoLock_included {time : ℤ} {file : List CalRecord} (heof : cal.eofState = false)
    (hline : cal.firstTime.line = some (.included time file)) :
    cal.readCFNoLock [] =
      (cal.firstTime.openInclude file).1.readCFNoLock [(cal.firstTime.openInclude file).2] := by
  rw [readCFNoLock.eq_def, dif_neg (by simp [heof])]
  dsimp only
  split
  · next hline' =>
      have hsame := hline.symm.trans hline'
      simp only [Option.some.injEq, CalRecord.included.injEq] at hsame
      rw [hsame.2]
  · next hline' => exact absurd (hline.symm.trans hline') (by simp)
  · next hline' => exact absurd (hline.symm.trans hline') (by simp)

/-- A file with records is opened and its first record read. -/
theorem readTime_new {record : CalRecord} {rest : List CalRecord} :
    (new (record :: rest)).readTime =
      { file := record :: rest, isOpen := true, rest := rest, line := some record,
        nextTime := record.time } := by
  rw [readTime_closed rfl, readTime_cons rfl rfl rfl]
  rfl

/-- The first call is a call with the first record read. -/
theorem readCFNoLock_new (record : CalRecord) (rest : List CalRecord) :
    (new (record :: rest)).readCFNoLock [] =
      (new (record :: rest)).readTime.readCFNoLock [] := by
  have hfirst : (new (record :: rest)).firstTime = (new (record :: rest)).readTime := if_pos rfl
  have hsecond : (new (record :: rest)).readTime.firstTime = (new (record :: rest)).readTime := by
    rw [firstTime, if_neg]
    rw [readTime_new]
    exact record.bot_lt_time.ne'
  have heof : (new (record :: rest)).readTime.eofState = false := by rw [readTime_new]
  have hline : (new (record :: rest)).readTime.line = some record := by rw [readTime_new]
  cases record with
  | cal time fields =>
      rw [readCFNoLock_cal rfl (hfirst ▸ hline), readCFNoLock_cal heof (hsecond.symm ▸ hline),
        hfirst, hsecond]
  | included time file =>
      rw [readCFNoLock_included rfl (hfirst ▸ hline),
        readCFNoLock_included heof (hsecond.symm ▸ hline), hfirst, hsecond]

/-- The first call for a file without records does not end with an exception. -/
theorem readCFNoLock_new_nil :
    (new []).readCFNoLock [] =
      (.returned (⊤, []), { file := [], eofState := true, nextTime := ⊤ }, []) := by
  have hread : (new []).readTime = { file := [], eofState := true, nextTime := ⊤ } := by
    rw [readTime_closed rfl, readTime_nil rfl rfl rfl]
    rfl
  have hfirst : (new []).firstTime = { file := [], eofState := true, nextTime := ⊤ } := by
    rw [← hread]
    exact if_pos rfl
  have hagain : (CalFile.readTime { file := [], eofState := true, nextTime := ⊤ }) =
      { file := [], eofState := true, nextTime := ⊤ } := by
    rw [readTime_closed rfl, readTime_nil rfl rfl rfl]
    rfl
  rw [readCFNoLock, dif_neg (by simp [new])]
  split
  · next hline => rw [hfirst] at hline; cases hline
  · next hline => rw [hfirst] at hline; cases hline
  · rw [hfirst, hagain]

/-- What is said of reading a file: the records returned are those of the flattening, in the order
of time, and all files are at their end when there is an exception. -/
def ReadAsFlattened (file : List CalRecord) : Prop :=
  ∃ read final, ReadsTo (new file) [] read final ∧ read = flatten file ∧
    (read.Pairwise fun before after => before.1 ≤ after.1) ∧ ∀ cal ∈ final, cal.eofState = true

theorem valid_new {record : CalRecord} {rest : List CalRecord}
    (hordered : Ordered (record :: rest)) :
    Valid (new (record :: rest)).readTime [] ∧
      stream (new (record :: rest)).readTime [] = ofRecords (record :: rest) := by
  rw [readTime_new]
  exact ⟨⟨⟨hordered, fun _ => rfl, by simp⟩, fun _ => rfl⟩, rfl⟩

/-- A file with records is read as its stream. -/
theorem readAsFlattened_iff_items {file : List CalRecord} (hordered : Ordered file)
    (hfile : file ≠ []) :
    ReadAsFlattened file ↔ (ofRecords file).items.map CalItem.returned = flatten file ∧
      (ofRecords file).exhausted = true := by
  obtain ⟨record, rest, rfl⟩ := List.exists_cons_of_ne_nil hfile
  obtain ⟨hvalid, hstream⟩ := valid_new hordered
  obtain ⟨final, hreads, hdone⟩ := readsTo_stream hvalid
  have hreads := hreads.congr (readCFNoLock_new record rest).symm
  rw [hstream] at hreads hdone
  constructor
  · rintro ⟨read, final', hreads', hflat, -, heof⟩
    obtain ⟨hsame, rfl⟩ := hreads.unique hreads'
    exact ⟨hsame.trans hflat, hdone.mp heof⟩
  · rintro ⟨hflat, hexhausted⟩
    refine ⟨_, final, hreads, hflat, ?_, hdone.mpr hexhausted⟩
    rw [hflat]
    exact flattenWithin_ordered hordered

/-- **When a calibration file is read as its flattening.**  The file holds a record, every include
record that is met names a file with records, unless it is the last of all, and in an included file
it is followed by a record before the limit. -/
theorem readAsFlattened_iff (file : List CalRecord) (hordered : Ordered file) :
    ReadAsFlattened file ↔ file ≠ [] ∧ ReadsWithin ⊤ file := by
  by_cases hfile : file = []
  · subst hfile
    constructor
    · rintro ⟨read, final, hreads, hflat, -, -⟩
      have hempty : flatten [] = [] := by rw [flatten, flattenWithin]
      rw [hflat, hempty] at hreads
      cases hreads with
      | exception hread =>
          rw [readCFNoLock_new_nil] at hread
          cases hread
    · rintro ⟨hne, -⟩
      exact absurd rfl hne
  · rw [readAsFlattened_iff_items hordered hfile, items_eq_flatten_iff]
    exact ⟨fun hreads => ⟨hfile, hreads⟩, fun hreads => hreads.2⟩

/-- A file with two records is included before the last record of another. -/
theorem readAsFlattened_twoIncluded :
    ReadAsFlattened [.included 10 [.cal 5 ["1"], .cal 15 ["2"]], .cal 20 ["3"]] := by
  apply (readAsFlattened_iff _ _).mpr
  · have hstart : startAt (CalRecord.included 10 [.cal 5 ["1"], .cal 15 ["2"]]).time
        [.cal 5 ["1"], .cal 15 ["2"]] = [.cal 5 ["1"], .cal 15 ["2"]] := by
      simp [startAt, greatestUpTo, CalRecord.time]
    refine ⟨by simp, ?_⟩
    simp [ReadsWithin, hstart]
  · simp [Ordered, headTime, CalRecord.time]

/-- An include record with a file that holds no records, before another record. -/
theorem not_readAsFlattened_nil :
    ¬ ∀ file : List CalRecord, Ordered file → ReadAsFlattened file := by
  intro hall
  have hordered : Ordered [.included 10 [], .cal 20 ["1"]] := by
    simp [Ordered, headTime, CalRecord.time]
  have hread := hall _ hordered
  rw [readAsFlattened_iff_items hordered (by simp), ofRecords_included, ofExpanded_nil] at hread
  have hexhausted := hread.2
  rw [setPeek_exhausted, decide_eq_true_iff] at hexhausted
  exact (CalRecord.cal 20 ["1"]).time_ne_top hexhausted

end CalFile

end Nidas.Core
