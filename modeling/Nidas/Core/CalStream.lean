import Mathlib.Data.List.TakeWhile
import Nidas.Core.CalFile

/-!
# What the files that are open will return

The records that a reader is going to return do not depend on when it returns them, so that they can
be written down in advance: the `CalStream` of some records is the list of what `readCF` returns,
with what `nextTime` is before each call.  The reader of an including file asks for `nextTime`
and for nothing else to find out whether the included file goes on.

`nextTime` is a promise that is not always kept.  Before the records of an included file are
read it is the time of the include record, whatever is in the file.  This is where the code goes
wrong, and the streams show it as it is.
-/

namespace Nidas.Core

open CalRecord

/-- A record that will be returned, and `nextTime` before the call. -/
structure CalItem where
  peek : CalTime
  returned : Returned

/-- The records that will be returned up to an `EOFException`, with `nextTime` before it, and
whether all files are at their end then. -/
structure CalStream where
  items : List CalItem
  endPeek : CalTime
  exhausted : Bool

namespace CalStream

/-- `nextTime` -/
def peek (stream : CalStream) : CalTime :=
  match stream.items with
  | [] => stream.endPeek
  | item :: _ => item.peek

/-- The same records with another `nextTime` before the first of them. -/
def setPeek (time : CalTime) (stream : CalStream) : CalStream :=
  match stream.items with
  | [] => { stream with endPeek := time }
  | item :: items => { stream with items := { item with peek := time } :: items }

/-- A stream that begins with a record. -/
def cons (item : CalItem) (stream : CalStream) : CalStream :=
  { stream with items := item :: stream.items }

/-- A file with the stream `outer` after the time `limit` includes one with the stream `inner`. -/
def including (start limit : CalTime) (outer : CalStream) (inner : CalStream) : CalStream :=
  let taken := inner.items.takeWhile (·.peek < limit)
  let raised := taken.map fun item => { item with returned := raise start item.returned }
  if taken.length = inner.items.length ∧ inner.endPeek < limit then
    -- the exception of the included file is that of the including one
    ⟨raised, inner.endPeek, inner.exhausted && limit = ⊤⟩
  else { outer with items := raised ++ outer.items }

/-- The stream of a file that holds no records, after `search`. -/
def empty : CalStream := ⟨[], ⊥, true⟩

/-- The stream of some records. -/
def ofRecords : List CalRecord → CalStream
  | [] => ⟨[], ⊤, true⟩
  | .cal time fields :: rest =>
      let start := (CalRecord.cal time fields).time
      (ofRecords rest).cons ⟨start, (start, fields)⟩
  | .included time file :: rest =>
      let start := (CalRecord.included time file).time
      let inner := if file.isEmpty then empty else ofRecords (startAt start file)
      (including start (headTime rest) (ofRecords rest) inner).setPeek start
termination_by records => sizeOf records
decreasing_by
  · simp only [List.cons.sizeOf_spec]
    omega
  · have hle := sizeOf_startAt (CalRecord.included time file).time file
    simp only [List.cons.sizeOf_spec, CalRecord.included.sizeOf_spec]
    omega
  · simp only [List.cons.sizeOf_spec]
    omega

/-! ## Including -/

variable {start limit : CalTime} {outer inner : CalStream} {item : CalItem}

/-- What a file includes is over when it is not before the limit. -/
theorem including_of_le (hpeek : limit ≤ inner.peek) :
    including start limit outer inner = outer := by
  obtain ⟨items, endPeek, exhausted⟩ := inner
  cases items with
  | nil =>
      have hnot : ¬ endPeek < limit := not_lt.mpr hpeek
      simp [including, hnot]
  | cons item items =>
      have hnot : ¬ item.peek < limit := not_lt.mpr hpeek
      simp [including, hnot]

/-- A record of the included file. -/
theorem including_cons (hpeek : item.peek < limit) :
    including start limit outer (inner.cons item) =
      (including start limit outer inner).cons
        { item with returned := raise start item.returned } := by
  simp only [including, cons, List.takeWhile_cons, hpeek, decide_true, if_true, List.length_cons,
    Nat.add_right_cancel_iff, List.map_cons]
  split <;> rfl

/-- The exception of the included file. -/
theorem including_nil {endPeek : CalTime} {exhausted : Bool} (hpeek : endPeek < limit) :
    including start limit outer ⟨[], endPeek, exhausted⟩ =
      ⟨[], endPeek, exhausted && limit = ⊤⟩ := by
  simp [including, hpeek]

/-- `nextTime` of the including file. -/
theorem peek_including (houter : outer.peek = limit) :
    (including start limit outer inner).peek = min inner.peek limit := by
  rcases lt_or_ge inner.peek limit with hlt | hge
  · rw [min_eq_left hlt.le]
    obtain ⟨items, endPeek, exhausted⟩ := inner
    cases items with
    | nil =>
        have hnil := @including_nil start limit outer endPeek exhausted hlt
        rw [hnil]
        rfl
    | cons item items =>
        have hcons := @including_cons start limit outer ⟨items, endPeek, exhausted⟩ item hlt
        exact (congrArg peek hcons).trans rfl
  · rw [including_of_le hge, min_eq_right hge, houter]

@[simp] theorem peek_setPeek (time : CalTime) (stream : CalStream) :
    (stream.setPeek time).peek = time := by
  obtain ⟨items, endPeek, exhausted⟩ := stream
  cases items <;> rfl

theorem peek_ofRecords (records : List CalRecord) :
    (ofRecords records).peek = headTime records := by
  match records with
  | [] =>
      rw [ofRecords]
      rfl
  | .cal time fields :: rest =>
      rw [ofRecords]
      rfl
  | .included time file :: rest =>
      rw [ofRecords, peek_setPeek]
      rfl

end CalStream

/-! ## The files that are open -/

namespace CalFile

open CalStream

variable {cal inner : CalFile} {nested includes : List CalFile}

/-- The records that a file itself has left. -/
def left (cal : CalFile) : List CalRecord :=
  if cal.eofState then [] else cal.line.toList ++ cal.rest

/-- What the files that are open will return. -/
def stream (cal : CalFile) : List CalFile → CalStream
  | [] => if cal.eofState then ⟨[], cal.nextTime, true⟩ else ofRecords cal.left
  | inner :: nested =>
      including cal.includeTime cal.timeAfterInclude (ofRecords cal.left) (stream inner nested)

/-- A file has read ahead to its next record, or is at its end. -/
structure Ahead (cal : CalFile) : Prop where
  ordered : Ordered cal.left
  isOpen : cal.eofState = false → cal.isOpen = true
  line : cal.eofState = false → cal.line ≠ none

/-- The state of the files that are open between two calls. -/
def Valid (cal : CalFile) : List CalFile → Prop
  | [] => cal.Ahead ∧ (cal.eofState = false → cal.nextTime = headTime cal.left)
  | inner :: nested =>
      cal.Ahead ∧ cal.timeAfterInclude = headTime cal.left ∧
        (cal.timeAfterInclude ≤ inner.nextTime → cal.nextTime = cal.timeAfterInclude) ∧
        inner.nextTime = (stream inner nested).peek ∧ Valid inner nested

/-- What a call leaves when the stream was `before`. -/
def Yields (before : CalStream) (after : CalResult × CalFile × List CalFile) : Prop :=
  match before.items with
  | [] =>
      after.1 = .eofException ∧
        ((∀ cal ∈ after.2.1 :: after.2.2, cal.eofState = true) ↔ before.exhausted = true)
  | item :: items =>
      after.1 = .returned item.returned ∧ Valid after.2.1 after.2.2 ∧
        stream after.2.1 after.2.2 = { before with items := items } ∧
        after.2.1.nextTime = (stream after.2.1 after.2.2).peek

/-- What `nextTime` promises does not matter for what is returned. -/
theorem Yields.setPeek {before : CalStream} {after : CalResult × CalFile × List CalFile}
    (hyields : Yields before after) (time : CalTime) : Yields (before.setPeek time) after := by
  obtain ⟨items, endPeek, exhausted⟩ := before
  cases items with
  | nil => exact hyields
  | cons item items => exact hyields

/-! ## Reading ahead -/

/-- The next record of a file that has read ahead. -/
theorem Ahead.readTime (hahead : cal.Ahead) (heof : cal.eofState = false) {record : CalRecord}
    (hline : cal.line = some record) :
    cal.readTime.Ahead ∧ cal.readTime.left = cal.rest ∧
      cal.readTime.nextTime = headTime cal.rest := by
  have hleft : cal.left = record :: cal.rest := by
    rw [left, heof, hline]
    rfl
  have hordered : Ordered cal.rest := by
    have hall := hahead.ordered
    rw [hleft] at hall
    exact hall.tail
  have hopen := hahead.isOpen heof
  cases hrest : cal.rest with
  | nil =>
      rw [readTime_nil hopen heof hrest]
      refine ⟨⟨?_, by simp, by simp⟩, rfl, rfl⟩
      simp [left, Ordered]
  | cons next rest =>
      rw [readTime_cons hopen heof hrest]
      have hleft' : left { cal with line := some next, rest := rest, nextTime := next.time } =
          next :: rest := by
        rw [left, heof]
        rfl
      refine ⟨⟨?_, fun _ => hopen, by simp⟩, hleft', rfl⟩
      rw [hleft', ← hrest]
      exact hordered

/-- Where the search ends when the records before `rest` are at `prevTime` at the latest. -/
theorem searchLoop_eq {tsearch : CalTime} {rest : List CalRecord} (hordered : Ordered rest)
    {prevTime : CalTime} (hprev : prevTime ≤ headTime rest ∨ prevTime = ⊤)
    (recpos : List CalRecord) :
    searchLoop tsearch prevTime recpos rest =
      match greatestUpTo tsearch rest with
      | some greatest =>
          if greatest = prevTime then recpos else rest.dropWhile (·.time ≠ greatest)
      | none => recpos := by
  induction rest generalizing prevTime recpos with
  | nil => rfl
  | cons record rest ih =>
      unfold searchLoop
      split
      · rename_i hlt
        have hnone : greatestUpTo tsearch (record :: rest) = none := by
          apply greatestUpTo_eq_none
          intro other hother
          rcases List.mem_cons.mp hother with rfl | hother
          · exact hlt
          · exact lt_of_lt_of_le hlt (hordered.le_of_mem hother)
        rw [hnone]
      · rename_i hle
        rw [greatestUpTo_cons_of_le (not_lt.mp hle) hordered]
        split
        · rename_i hne
          rw [ih hordered.tail (.inl hordered.head_le)]
          cases hgreatest : greatestUpTo tsearch rest with
          | none =>
              dsimp only [Option.getD_none]
              rw [if_neg hne, List.dropWhile_cons_of_neg (by simp)]
          | some greatest =>
              dsimp only [Option.getD_some]
              by_cases hsame : greatest = record.time
              · rw [if_pos hsame, hsame, if_neg hne, List.dropWhile_cons_of_neg (by simp)]
              · obtain ⟨other, hother, rfl⟩ := exists_of_greatestUpTo hgreatest
                have hlt : record.time < other.time :=
                  lt_of_le_of_ne (hordered.le_of_mem hother) (Ne.symm hsame)
                have hprev' : other.time ≠ prevTime := by
                  rcases hprev with hprev | rfl
                  · exact (lt_of_le_of_lt hprev hlt).ne'
                  · exact other.time_ne_top
                rw [if_neg hsame, if_neg hprev',
                  List.dropWhile_cons_of_pos (by simpa using hlt.ne)]
        · rename_i hsame
          have hsame : record.time = prevTime := not_not.mp hsame
          rw [ih hordered.tail (.inl (hsame ▸ hordered.head_le))]
          cases hgreatest : greatestUpTo tsearch rest with
          | none =>
              dsimp only [Option.getD_none]
              rw [if_pos hsame]
          | some greatest =>
              dsimp only [Option.getD_some]
              by_cases hprev' : greatest = prevTime
              · rw [if_pos hprev', if_pos hprev']
              · rw [if_neg hprev', if_neg hprev',
                  List.dropWhile_cons_of_pos (by simpa [hsame] using Ne.symm hprev')]

/-- The search in a file that was opened ends where the records that count begin. -/
theorem searchLoop_file {file : List CalRecord} (hordered : Ordered file) (tsearch : CalTime) :
    searchLoop tsearch ⊤ file file = startAt tsearch file := by
  rw [searchLoop_eq hordered (.inr rfl), startAt]
  cases hgreatest : greatestUpTo tsearch file with
  | none => rfl
  | some greatest =>
      obtain ⟨record, -, rfl⟩ := exists_of_greatestUpTo hgreatest
      exact if_neg record.time_ne_top

/-- Some record of a file is in force. -/
theorem startAt_ne_nil {file : List CalRecord} (hfile : file ≠ []) (start : CalTime) :
    startAt start file ≠ [] := by
  unfold startAt
  split
  · rename_i greatest hgreatest
    obtain ⟨record, hrecord, hsame⟩ := exists_of_greatestUpTo hgreatest
    rw [ne_eq, List.dropWhile_eq_nil_iff]
    intro hall
    have hne := hall record hrecord
    simp [hsame] at hne
  · exact hfile

/-- An included file that holds records, after `search`. -/
theorem search_cons {file rest : List CalRecord} {record : CalRecord} (hordered : Ordered file)
    {tsearch : CalTime} (hstart : startAt tsearch file = record :: rest) :
    (new file).openFile.search tsearch =
      { file := file, isOpen := true, rest := rest, line := some record,
        nextTime := record.time } := by
  have hloop := searchLoop_file hordered tsearch
  rw [hstart] at hloop
  simp [search, new, openFile, readLine, parseTime, hloop]

theorem search_nil (tsearch : CalTime) :
    (new []).openFile.search tsearch =
      { file := [], isOpen := true, eofState := true } := by
  simp [search, new, openFile, readLine, searchLoop]

/-- The stream of an included file. -/
theorem search_spec {file : List CalRecord} (hordered : Ordered file) (tsearch : CalTime) :
    Valid ((new file).openFile.search tsearch) [] ∧
      stream ((new file).openFile.search tsearch) [] =
        if file.isEmpty then CalStream.empty else ofRecords (startAt tsearch file) := by
  by_cases hfile : file = []
  · subst hfile
    rw [search_nil]
    refine ⟨⟨⟨?_, by simp, by simp⟩, by simp⟩, rfl⟩
    simp [left, Ordered]
  · cases hstart : startAt tsearch file with
    | nil => exact absurd hstart (startAt_ne_nil hfile tsearch)
    | cons record rest =>
        have hordered' : Ordered (record :: rest) := hstart ▸ hordered.startAt tsearch
        rw [search_cons hordered hstart]
        refine ⟨⟨⟨hordered', fun _ => rfl, by simp⟩, fun _ => rfl⟩, ?_⟩
        rw [if_neg (by simpa using hfile)]
        rfl

/-! ## One call -/

theorem stream_nil (cal : CalFile) :
    stream cal [] = if cal.eofState then ⟨[], cal.nextTime, true⟩ else ofRecords cal.left := rfl

theorem stream_cons (cal inner : CalFile) (nested : List CalFile) :
    stream cal (inner :: nested) =
      including cal.includeTime cal.timeAfterInclude (ofRecords cal.left) (stream inner nested) :=
  rfl

/-- A file that has read ahead has a line, with the time that comes next. -/
theorem Valid.exists_line (hvalid : Valid cal []) (heof : cal.eofState = false) :
    ∃ record, cal.line = some record ∧ cal.left = record :: cal.rest ∧
      cal.firstTime = cal ∧ cal.nextTime = record.time := by
  obtain ⟨hahead, hnext⟩ := hvalid
  cases hline : cal.line with
  | none => exact absurd hline (hahead.line heof)
  | some record =>
      have hleft : cal.left = record :: cal.rest := by
        rw [left, heof, hline]
        rfl
      have htime : cal.nextTime = record.time := by
        rw [hnext heof, hleft]
        rfl
      have hfirst : cal.firstTime = cal := by
        rw [firstTime, if_neg]
        rw [htime]
        exact record.bot_lt_time.ne'
      exact ⟨record, rfl, hleft, hfirst, htime⟩

/-- A file that has read ahead is at its end if there is no time after. -/
theorem Ahead.headTime_eq_top (hahead : cal.Ahead) :
    headTime cal.left = ⊤ ↔ cal.eofState = true := by
  cases heof : cal.eofState with
  | true => simp [left, heof, headTime]
  | false =>
      cases hline : cal.line with
      | none => exact absurd hline (hahead.line heof)
      | some record => simpa [left, heof, hline, headTime] using record.time_ne_top

/-- The included file has an exception, and so has the including one. -/
theorem Yields.exception {inner' : CalFile} {nested' : List CalFile} (hahead : cal.Ahead)
    (hafter : cal.timeAfterInclude = headTime cal.left)
    (hpeek : inner.nextTime = (stream inner nested).peek)
    (hlt : inner.nextTime < cal.timeAfterInclude)
    (hinner : Yields (stream inner nested) (.eofException, inner', nested')) :
    Yields (stream cal (inner :: nested)) (.eofException, cal, inner' :: nested') := by
  rcases hbefore : stream inner nested with ⟨items, endPeek, exhausted⟩
  rw [hpeek, hbefore] at hlt
  rw [hbefore] at hinner
  rw [stream_cons, hbefore]
  cases items with
  | cons item items => exact absurd hinner.1 (by simp)
  | nil =>
      have htop : cal.timeAfterInclude = ⊤ ↔ cal.eofState = true := by
        rw [hafter]
        exact hahead.headTime_eq_top
      have hnil := @including_nil cal.includeTime cal.timeAfterInclude (ofRecords cal.left) endPeek
        exhausted hlt
      rw [hnil]
      refine ⟨rfl, ?_⟩
      dsimp only
      rw [List.forall_mem_cons, hinner.2, Bool.and_eq_true, decide_eq_true_iff, htop]
      exact and_comm

/-- The included file returns a record, which is raised. -/
theorem Yields.record {inner' : CalFile} {nested' : List CalFile} {returned : Returned}
    (hahead : cal.Ahead) (hafter : cal.timeAfterInclude = headTime cal.left)
    (hpeek : inner.nextTime = (stream inner nested).peek)
    (hlt : inner.nextTime < cal.timeAfterInclude)
    (hinner : Yields (stream inner nested) (.returned returned, inner', nested')) :
    Yields (stream cal (inner :: nested))
      (.returned (raise cal.includeTime returned),
        { cal with nextTime := min inner'.nextTime cal.timeAfterInclude }, inner' :: nested') := by
  rcases hbefore : stream inner nested with ⟨items, endPeek, exhausted⟩
  rw [hpeek, hbefore] at hlt
  rw [hbefore] at hinner
  rw [stream_cons, hbefore]
  cases items with
  | nil => exact absurd hinner.1 (by simp)
  | cons item items =>
      obtain ⟨hreturned, hvalid, hstream, hnext⟩ := hinner
      have hcons := @including_cons cal.includeTime cal.timeAfterInclude (ofRecords cal.left)
        ⟨items, endPeek, exhausted⟩ item hlt
      have houter : (ofRecords cal.left).peek = cal.timeAfterInclude := by
        rw [hafter]
        exact peek_ofRecords cal.left
      have hsame : item.returned = returned := (CalResult.returned.inj hreturned).symm
      change Yields (including _ _ _ (CalStream.cons item ⟨items, endPeek, exhausted⟩)) _
      rw [hcons, ← hsame]
      refine ⟨rfl, ⟨⟨hahead.ordered, hahead.isOpen, hahead.line⟩, hafter, ?_, hnext, hvalid⟩,
        ?_, ?_⟩
      · exact fun hge => min_eq_right hge
      · rw [stream_cons, hstream]
        rfl
      · rw [stream_cons, hstream]
        change min inner'.nextTime cal.timeAfterInclude =
          (including cal.includeTime cal.timeAfterInclude (ofRecords cal.left) _).peek
        rw [peek_including houter, hnext, hstream]

theorem readTime_includeTime (cal : CalFile) : cal.readTime.includeTime = cal.includeTime := by
  have hopened : (if cal.isOpen then cal else cal.openFile).includeTime = cal.includeTime := by
    split <;> rfl
  have hline : cal.readLine.includeTime =
      (if cal.isOpen then cal else cal.openFile).includeTime := by
    unfold readLine
    generalize (if cal.isOpen then cal else cal.openFile) = opened
    dsimp only
    split
    · rfl
    · split <;> rfl
  have hread : cal.readTime.includeTime = cal.readLine.includeTime := by
    unfold readTime
    dsimp only
    split <;> rfl
  rw [hread, hline, hopened]

/-- `nextTime` of a file that includes none. -/
theorem Valid.nextTime_eq (hvalid : Valid cal []) : cal.nextTime = (stream cal []).peek := by
  rw [stream_nil]
  split
  · rfl
  · rename_i heof
    rw [peek_ofRecords, hvalid.2 (Bool.eq_false_of_not_eq_true heof)]

/-- An include file is opened. -/
theorem Valid.openInclude {time : ℤ} {file : List CalRecord} (hvalid : Valid cal [])
    (heof : cal.eofState = false) (hline : cal.line = some (.included time file))
    (htime : cal.nextTime = (CalRecord.included time file).time) :
    Valid (cal.openInclude file).1 [(cal.openInclude file).2] ∧
      stream (cal.openInclude file).1 [(cal.openInclude file).2] =
        including (CalRecord.included time file).time (headTime cal.rest) (ofRecords cal.rest)
          (if file.isEmpty then CalStream.empty
            else ofRecords (startAt (CalRecord.included time file).time file)) := by
  have hordered : Ordered file := by
    have hall := hvalid.1.ordered
    rw [left, heof, hline] at hall
    exact Ordered.file hall
  have hmarked : Ahead { cal with includeTime := cal.nextTime } :=
    ⟨hvalid.1.ordered, hvalid.1.isOpen, hvalid.1.line⟩
  obtain ⟨hahead, hleft, hnext⟩ := hmarked.readTime heof hline
  have hinclude : (readTime { cal with includeTime := cal.nextTime }).includeTime =
      cal.nextTime := readTime_includeTime _
  obtain ⟨hinner, hstream⟩ := search_spec hordered cal.nextTime
  constructor
  · refine ⟨⟨hahead.ordered, hahead.isOpen, hahead.line⟩, ?_, fun _ => rfl, hinner.nextTime_eq,
      hinner⟩
    exact hnext.trans (by rw [← hleft]; rfl)
  · change including (readTime { cal with includeTime := cal.nextTime }).includeTime
      (readTime { cal with includeTime := cal.nextTime }).nextTime
      (ofRecords (readTime { cal with includeTime := cal.nextTime }).left)
      (stream ((new file).openFile.search cal.nextTime) []) = _
    rw [hinclude, hnext, hleft, hstream, htime]

/-- What a call returns is what stands first in the stream. -/
theorem readCFNoLock_yields (cal : CalFile) (includes : List CalFile)
    (hvalid : Valid cal includes) :
    Yields (stream cal includes) (cal.readCFNoLock includes) := by
  fun_induction readCFNoLock cal includes with
  | case1 cal inner nested hlt inner' nested' hread ih =>
      obtain ⟨hahead, hafter, -, hpeek, hinner⟩ := hvalid
      have hyields := ih hinner
      rw [hread] at hyields
      exact hyields.exception hahead hafter hpeek hlt
  | case2 cal inner nested hlt time fields inner' nested' hread time' nextTime' ih =>
      obtain ⟨hahead, hafter, -, hpeek, hinner⟩ := hvalid
      have hyields := ih hinner
      rw [hread] at hyields
      have hrecord := hyields.record hahead hafter hpeek hlt
      have htime : time' = max cal.includeTime time := by
        rw [max_comm, max_def_lt]
        exact dite_eq_ite
      have hnext : nextTime' = min inner'.nextTime cal.timeAfterInclude := by
        rw [min_comm, min_def_lt]
        exact dite_eq_ite
      rw [htime, hnext]
      exact hrecord
  | case3 cal inner nested hge ih =>
      obtain ⟨hahead, hafter, hnext, hpeek, hinner⟩ := hvalid
      have hnext := hnext (not_lt.mp hge)
      have hclosed : Valid cal [] := ⟨hahead, fun _ => hnext.trans hafter⟩
      have hstream : stream cal (inner :: nested) = stream cal [] := by
        rw [stream_cons, including_of_le (by rw [← hpeek]; exact not_lt.mp hge), stream_nil]
        split
        · rename_i heof
          have htop := hahead.headTime_eq_top.mpr heof
          rw [hnext, hafter, htop, left, if_pos heof, ofRecords]
        · rfl
      rw [hstream]
      exact ih hclosed
  | case4 cal heof =>
      rw [stream_nil, if_pos heof]
      exact ⟨rfl, by simpa using heof⟩
  | case5 cal heof time file hline ih =>
      have heof := Bool.eq_false_of_not_eq_true heof
      obtain ⟨record, hrecord, hleft, hfirst, htime⟩ := hvalid.exists_line heof
      rw [hfirst] at hline ih ⊢
      obtain rfl := Option.some.inj (hrecord.symm.trans hline)
      obtain ⟨hopened, hstream⟩ := hvalid.openInclude heof hline htime
      rw [stream_nil, if_neg (by simp [heof]), hleft, ofRecords]
      apply Yields.setPeek
      rw [← hstream]
      exact ih hopened
  | case6 cal heof time fields hline =>
      have heof := Bool.eq_false_of_not_eq_true heof
      obtain ⟨record, hrecord, hleft, hfirst, htime⟩ := hvalid.exists_line heof
      rw [hfirst] at hline ⊢
      obtain rfl := Option.some.inj (hrecord.symm.trans hline)
      obtain ⟨hahead, hleft', hnext⟩ := hvalid.1.readTime heof hline
      have hvalid' : Valid cal.readTime [] := ⟨hahead, fun _ => hnext.trans (by rw [hleft'])⟩
      have hstream : stream cal.readTime [] = ofRecords cal.rest := by
        rw [stream_nil, ← hleft']
        split
        · rename_i heof'
          rw [hnext, ← hleft', hahead.headTime_eq_top.mpr heof', left, if_pos heof', ofRecords]
        · rfl
      rw [stream_nil, if_neg (by simp [heof]), hleft, ofRecords, htime]
      refine ⟨rfl, hvalid', hstream, ?_⟩
      rw [hnext, hstream, peek_ofRecords]
  | case7 cal heof hline =>
      have heof := Bool.eq_false_of_not_eq_true heof
      obtain ⟨record, hrecord, -, hfirst, -⟩ := hvalid.exists_line heof
      rw [hfirst, hrecord] at hline
      cases hline

end CalFile

end Nidas.Core
