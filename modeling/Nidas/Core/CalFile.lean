import Nidas.Core.CalRecords

/-!
# Reading calibration files

`CalFile::readCF` returns the records of a file one by one, and those of the included files in
their place.  It looks one record ahead: the line that is to be returned next has been read, and its
time is in `_nextTime`.

The files that are open are the outermost one, the one that it is including, the one that this
includes, and so on.  They are a list here; a null `_include` is the end of the list.  The
conversion of the fields to numbers is left out.
-/

namespace Nidas.Core

/-- The members of a `CalFile`.  `file` is what `open` finds, `rest` what is after the position of
`_fin`, and `line` the record that `_curline` holds, if it holds one. -/
structure CalFile where
  file : List CalRecord
  isOpen : Bool := false
  rest : List CalRecord := []
  line : Option CalRecord := none
  eofState : Bool := false
  nextTime : CalTime := ⊥
  includeTime : CalTime := ⊥
  timeAfterInclude : CalTime := ⊥

/-- What a call of `readCF` ends with: a record, or an `EOFException`. -/
inductive CalResult where
  | returned (record : CalRecord.Returned)
  | eofException

namespace CalFile

/-- A `CalFile` for a file that was not read yet. -/
def new (file : List CalRecord) : CalFile := { file := file }

/-- `CalFile::open` -/
def openFile (cal : CalFile) : CalFile :=
  { cal with isOpen := true, rest := cal.file, line := none, eofState := false, nextTime := ⊥ }

/-- `CalFile::close`, of a file that includes none -/
def close (cal : CalFile) : CalFile := { cal with isOpen := false }

/-- `CalFile::readLine`, to the next line with a record -/
def readLine (cal : CalFile) : CalFile :=
  let cal := if cal.isOpen then cal else cal.openFile
  if cal.eofState then cal
  else
    match cal.rest with
    | [] => { cal with eofState := true, line := none }
    | record :: rest => { cal with line := some record, rest := rest }

/-- `CalFile::parseTime` -/
def parseTime (cal : CalFile) : CalTime := cal.line.elim ⊤ CalRecord.time

/-- `CalFile::readTime` -/
def readTime (cal : CalFile) : CalFile :=
  let cal := cal.readLine
  if cal.eofState then { cal.close with nextTime := ⊤ }
  else { cal with nextTime := cal.parseTime }

/-- The loop in `CalFile::search`: `recpos` is the position that was saved last. -/
def searchLoop (tsearch : CalTime) :
    CalTime → List CalRecord → List CalRecord → List CalRecord
  | _, recpos, [] => recpos
  | prevTime, recpos, record :: rest =>
      if tsearch < record.time then recpos
      else if record.time ≠ prevTime then searchLoop tsearch record.time (record :: rest) rest
      else searchLoop tsearch prevTime recpos rest

/-- `CalFile::search`, of a file that is open -/
def search (cal : CalFile) (tsearch : CalTime) : CalFile :=
  let recpos := searchLoop tsearch ⊤ cal.file cal.rest
  let cal := { cal with rest := recpos, eofState := false }.readLine
  if cal.eofState then cal else { cal with nextTime := cal.parseTime }

/-- `CalFile::openInclude`: the including file and the included one -/
def openInclude (cal : CalFile) (file : List CalRecord) : CalFile × CalFile :=
  let includeTime := cal.nextTime
  let cal := { cal with includeTime := includeTime }.readTime
  ({ cal with timeAfterInclude := cal.nextTime }, (new file).openFile.search includeTime)

/-- A bound for the number of records that are left, for the termination of `readCFNoLock`. -/
noncomputable def weight (cal : CalFile) : ℕ :=
  if cal.eofState then 0
  else if cal.isOpen then sizeOf cal.line + sizeOf cal.rest
  else sizeOf cal.line + sizeOf cal.file

/-- The weight of the files that are open. -/
noncomputable def weights (cals : List CalFile) : ℕ := (cals.map fun cal => cal.weight + 1).sum

section ReadTime

variable {cal : CalFile}

theorem readTime_nil (hopen : cal.isOpen = true) (heof : cal.eofState = false)
    (hrest : cal.rest = []) :
    cal.readTime =
      { cal with eofState := true, line := none, isOpen := false, nextTime := ⊤ } := by
  simp [readTime, readLine, close, hopen, heof, hrest]

theorem readTime_cons {record : CalRecord} {rest : List CalRecord} (hopen : cal.isOpen = true)
    (heof : cal.eofState = false) (hrest : cal.rest = record :: rest) :
    cal.readTime =
      { cal with line := some record, rest := rest, nextTime := record.time } := by
  simp [readTime, readLine, parseTime, hopen, heof, hrest]

theorem readTime_closed (hopen : cal.isOpen = false) : cal.readTime = cal.openFile.readTime := by
  simp [readTime, readLine, openFile, hopen]

theorem weight_readTime_open (hopen : cal.isOpen = true) (heof : cal.eofState = false) :
    cal.readTime.weight ≤ sizeOf cal.rest := by
  cases hrest : cal.rest with
  | nil =>
      rw [readTime_nil hopen heof hrest]
      simp [weight]
  | cons record rest =>
      rw [readTime_cons hopen heof hrest]
      simp [weight, heof, hopen]

/-- After a line has been read it is not left any more. -/
theorem weight_readTime (heof : cal.eofState = false) :
    cal.readTime.weight + sizeOf cal.line ≤ cal.weight := by
  cases hopen : cal.isOpen with
  | true =>
      have hle := weight_readTime_open hopen heof
      simp only [weight, heof, hopen] at hle ⊢
      simp only [Bool.false_eq_true, if_false, if_true]
      omega
  | false =>
      have hle := @weight_readTime_open cal.openFile rfl rfl
      rw [readTime_closed hopen]
      have hfile : cal.openFile.rest = cal.file := rfl
      rw [hfile] at hle
      simp only [weight, heof, hopen] at hle ⊢
      simp only [Bool.false_eq_true, if_false]
      omega

end ReadTime

theorem searchLoop_suffix {tsearch prevTime : CalTime} {file recpos rest : List CalRecord}
    (hrecpos : recpos <:+ file) (hrest : rest <:+ file) :
    searchLoop tsearch prevTime recpos rest <:+ file := by
  induction rest generalizing prevTime recpos with
  | nil => exact hrecpos
  | cons record rest ih =>
      have hrest' : rest <:+ file := (List.suffix_cons record rest).trans hrest
      unfold searchLoop
      split
      · exact hrecpos
      · split
        · exact ih hrest hrest'
        · exact ih hrecpos hrest'

/-- The first part of `CalFile::readCFNoLock` when there is no include file: the first record is
read. -/
def firstTime (cal : CalFile) : CalFile := if cal.nextTime = ⊥ then cal.readTime else cal

theorem weight_firstTime {cal : CalFile} (heof : cal.eofState = false) :
    cal.firstTime.weight ≤ cal.weight := by
  unfold firstTime
  split
  · have hle := weight_readTime heof
    omega
  · exact le_refl _

/-- There is no line at the end of a file. -/
theorem eofState_readTime {cal : CalFile} {record : CalRecord} (heof : cal.eofState = false)
    (hline : cal.readTime.line = some record) : cal.readTime.eofState = false := by
  have hopened : ∀ cal : CalFile, cal.isOpen = true → cal.eofState = false →
      cal.readTime.line = some record → cal.readTime.eofState = false := by
    intro cal hopen heof hline
    cases hrest : cal.rest with
    | nil =>
        rw [readTime_nil hopen heof hrest] at hline
        cases hline
    | cons record rest =>
        rw [readTime_cons hopen heof hrest]
        exact heof
  cases hopen : cal.isOpen with
  | true => exact hopened cal hopen heof hline
  | false =>
      rw [readTime_closed hopen] at hline ⊢
      exact hopened cal.openFile rfl rfl hline

theorem eofState_firstTime {cal : CalFile} {record : CalRecord} (heof : cal.eofState = false)
    (hline : cal.firstTime.line = some record) : cal.firstTime.eofState = false := by
  unfold firstTime at hline ⊢
  split at hline
  · rename_i hmin
    rw [if_pos hmin]
    exact eofState_readTime heof hline
  · rename_i hmin
    rw [if_neg hmin]
    exact heof

/-- The included file has no more records than the file that was opened. -/
theorem weight_search (file : List CalRecord) (tsearch : CalTime) :
    ((new file).openFile.search tsearch).weight ≤ sizeOf file := by
  have hsuffix : searchLoop tsearch ⊤ file file <:+ file :=
    searchLoop_suffix (List.suffix_refl file) (List.suffix_refl file)
  have hle := CalRecord.sizeOf_suffix hsuffix
  unfold search openFile readLine new
  cases hrecpos : searchLoop tsearch ⊤ file file with
  | nil => simp [weight]
  | cons record rest =>
      rw [hrecpos] at hle
      simpa [weight, hrecpos] using hle

theorem weight_openInclude {cal : CalFile} {time : ℤ} {file : List CalRecord}
    (heof : cal.eofState = false) (hline : cal.firstTime.line = some (.included time file)) :
    weights [(cal.firstTime.openInclude file).1, (cal.firstTime.openInclude file).2] <
      cal.weight + 1 := by
  have houter : (cal.firstTime.openInclude file).1.weight + sizeOf cal.firstTime.line ≤
      cal.firstTime.weight := by
    have hread := @weight_readTime { cal.firstTime with includeTime := cal.firstTime.nextTime }
      (eofState_firstTime heof hline)
    exact hread
  have hinner : (cal.firstTime.openInclude file).2.weight ≤ sizeOf file := weight_search file _
  have hfirst := weight_firstTime heof
  rw [hline] at houter
  simp only [Option.some.sizeOf_spec, CalRecord.included.sizeOf_spec] at houter
  simp only [weights, List.map_cons, List.sum_cons, List.map_nil, List.sum_nil]
  omega

/-- `CalFile::readCFNoLock`, with `CalFile::readCFInclude` in it.  `includes` are the included file,
the one that it includes, and so on. -/
def readCFNoLock (cal : CalFile) (includes : List CalFile) :
    CalResult × CalFile × List CalFile :=
  match includes with
  | inner :: nested =>
      if inner.nextTime < cal.timeAfterInclude then
        match readCFNoLock inner nested with
        | (.eofException, inner, nested) => (.eofException, cal, inner :: nested)
        | (.returned (time, fields), inner, nested) =>
            let time := if time < cal.includeTime then cal.includeTime else time
            let nextTime :=
              if inner.nextTime > cal.timeAfterInclude then cal.timeAfterInclude
              else inner.nextTime
            (.returned (time, fields), { cal with nextTime := nextTime }, inner :: nested)
      else
        -- the included file is closed
        readCFNoLock cal []
  | [] =>
      if heof : cal.eofState then (.eofException, cal, [])
      else
        match hline : cal.firstTime.line with
        | some (.included _ file) =>
            readCFNoLock (cal.firstTime.openInclude file).1 [(cal.firstTime.openInclude file).2]
        | some (.cal _ fields) =>
            (.returned (cal.firstTime.nextTime, fields), cal.firstTime.readTime, [])
        | none => (.returned (cal.firstTime.nextTime, []), cal.firstTime.readTime, [])
termination_by weights (cal :: includes)
decreasing_by
  · simp only [weights, List.map_cons, List.sum_cons]
    omega
  · simp only [weights, List.map_cons, List.sum_cons, List.map_nil, List.sum_nil]
    omega
  · have hlt := weight_openInclude (Bool.eq_false_of_not_eq_true heof) hline
    simpa [weights] using hlt

end CalFile

end Nidas.Core
