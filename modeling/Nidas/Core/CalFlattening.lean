import Nidas.Core.CalStream

/-!
# When a calibration file is read as its flattening

The stream of a file says what is read from it, `flatten` what should be.  This file compares the
two, up to a limit: the records of an included file that the including one asks for are those with
`nextTime` before the limit.

## Strategy

`taken_ofExpanded` says what a limit leaves of a file that includes another: the part of the
included file up to the smaller of the two limits, and then the rest.  The flattening is
made in the same way.  There are two differences.

* `nextTime` is the time of the include record, although the included file goes on later than that.
  If it goes on after the limit then a record is returned that is too late.
* An exception of the included file ends everything.  It is raised for a file without records.

`ReadsWithin` excludes both.  It is also necessary: a record that is too late is one more, and there
never are fewer records unless a file was left before its end.
-/

namespace Nidas.Core

namespace CalRecord

/-- The condition under which some records are read up to a limit as they should be.  An include
record names a file with records, unless it is the last of all.  In an included file it is
followed by a record, its own or a later one, before the limit. -/
def ReadsWithin (limit : CalTime) : List CalRecord → Prop
  | [] => True
  | cal time fields :: rest => (cal time fields).time < limit → ReadsWithin limit rest
  | included time file :: rest =>
      (included time file).time < limit →
        (file = [] → limit = ⊤ ∧ rest = []) ∧
        (limit ≠ ⊤ → flattenWithin limit (included time file :: rest) ≠ []) ∧
        ReadsWithin (min limit (headTime rest)) (startAt (included time file).time file) ∧
        ReadsWithin limit rest
termination_by records => sizeOf records
decreasing_by
  · simp only [List.cons.sizeOf_spec]
    omega
  · have hle := sizeOf_startAt (included time file).time file
    simp only [List.cons.sizeOf_spec, included.sizeOf_spec]
    omega
  · simp only [List.cons.sizeOf_spec]
    omega

/-! ## The flattening -/

variable {limit : CalTime} {records : List CalRecord}

theorem bot_lt_headTime (records : List CalRecord) : ⊥ < headTime records := by
  cases records with
  | nil => exact bot_lt_top
  | cons record records => exact record.bot_lt_time

theorem headTime_eq_top_iff : headTime records = ⊤ ↔ records = [] := by
  cases records with
  | nil => simp [headTime]
  | cons record records => simpa [headTime] using record.time_ne_top

/-- Nothing is left of records that are not before the limit. -/
theorem flattenWithin_of_le (hle : limit ≤ headTime records) :
    flattenWithin limit records = [] := by
  match records with
  | [] => rw [flattenWithin]
  | cal time fields :: rest =>
      rw [flattenWithin]
      exact if_neg (not_lt.mpr hle)
  | included time file :: rest =>
      rw [flattenWithin]
      exact if_neg (not_lt.mpr hle)

theorem readsWithin_of_le (hle : limit ≤ headTime records) : ReadsWithin limit records := by
  match records with
  | [] => rw [ReadsWithin]; trivial
  | cal time fields :: rest =>
      rw [ReadsWithin]
      exact fun hlt => absurd hlt (not_lt.mpr hle)
  | included time file :: rest =>
      rw [ReadsWithin]
      exact fun hlt => absurd hlt (not_lt.mpr hle)

/-- The times of a flattening are between that of the first record and the limit. -/
theorem flattenWithin_bounds {returned : Returned} (hordered : Ordered records)
    (hmem : returned ∈ flattenWithin limit records) :
    headTime records ≤ returned.1 ∧ returned.1 < limit := by
  fun_induction flattenWithin limit records generalizing returned with
  | case1 limit => cases hmem
  | case2 limit time fields rest hlt ih =>
      rcases List.mem_cons.mp hmem with rfl | hmem
      · exact ⟨le_refl _, hlt⟩
      · obtain ⟨hge, hlt'⟩ := ih hordered.tail hmem
        exact ⟨le_trans hordered.head_le hge, hlt'⟩
  | case3 limit time fields rest hge => cases hmem
  | case4 limit time file rest hlt ihInner ihRest =>
      rcases List.mem_append.mp hmem with hmem | hmem
      · obtain ⟨inner, hinner, rfl⟩ := List.mem_map.mp hmem
        obtain ⟨-, hlt'⟩ := ihInner (hordered.file.startAt _) hinner
        exact ⟨le_max_left _ _, max_lt hlt (lt_of_lt_of_le hlt' (min_le_left _ _))⟩
      · obtain ⟨hge, hlt'⟩ := ihRest hordered.tail hmem
        exact ⟨le_trans hordered.head_le hge, hlt'⟩
  | case5 limit time file rest hge => cases hmem

/-- The times of a flattening are in order. -/
theorem flattenWithin_ordered (hordered : Ordered records) :
    (flattenWithin limit records).Pairwise fun before after => before.1 ≤ after.1 := by
  fun_induction flattenWithin limit records with
  | case1 limit => exact List.Pairwise.nil
  | case2 limit time fields rest hlt ih =>
      refine List.Pairwise.cons ?_ (ih hordered.tail)
      intro after hafter
      exact le_trans hordered.head_le (flattenWithin_bounds hordered.tail hafter).1
  | case3 limit time fields rest hge => exact List.Pairwise.nil
  | case4 limit time file rest hlt ihInner ihRest =>
      refine List.pairwise_append.mpr ⟨?_, ihRest hordered.tail, ?_⟩
      · refine List.Pairwise.map _ ?_ (ihInner (hordered.file.startAt _))
        exact fun before after hle => max_le_max_left _ hle
      · intro before hbefore after hafter
        obtain ⟨inner, hinner, rfl⟩ := List.mem_map.mp hbefore
        have hlt' := (flattenWithin_bounds (hordered.file.startAt _) hinner).2
        have hle : (raise (included time file).time inner).1 ≤ headTime rest :=
          max_le hordered.head_le (lt_of_lt_of_le hlt' (min_le_right _ _)).le
        exact le_trans hle (flattenWithin_bounds hordered.tail hafter).1
  | case5 limit time file rest hge => exact List.Pairwise.nil

end CalRecord

/-! ## What a limit leaves of a stream -/

open CalRecord

namespace CalStream

/-- The records of a stream that are asked for when there is a limit. -/
def taken (limit : CalTime) (stream : CalStream) : List CalItem :=
  stream.items.takeWhile (·.peek < limit)

/-- The exception of a stream is met before the limit. -/
def EndsBefore (limit : CalTime) (stream : CalStream) : Prop :=
  (∀ item ∈ stream.items, item.peek < limit) ∧ stream.endPeek < limit

/-- The exception of a stream is no harm: it comes when nothing else is left. -/
def EndsWell (limit : CalTime) (stream : CalStream) : Prop :=
  stream.EndsBefore limit → limit = ⊤ ∧ stream.exhausted = true

/-- An item with the time raised. -/
def raiseItem (start : CalTime) (item : CalItem) : CalItem :=
  { item with returned := CalRecord.raise start item.returned }

variable {start limit after : CalTime} {stream outer inner : CalStream}

theorem taken_of_le (hle : limit ≤ stream.peek) : stream.taken limit = [] := by
  obtain ⟨items, endPeek, exhausted⟩ := stream
  cases items with
  | nil => rfl
  | cons item items =>
      have hnot : ¬ item.peek < limit := not_lt.mpr hle
      simp [taken, hnot]

theorem EndsBefore.peek_lt (hends : stream.EndsBefore limit) : stream.peek < limit := by
  obtain ⟨items, endPeek, exhausted⟩ := stream
  cases items with
  | nil => exact hends.2
  | cons item items => exact hends.1 item List.mem_cons_self

theorem taken_min (limit after : CalTime) (stream : CalStream) :
    stream.taken (min limit after) = (stream.taken after).takeWhile (·.peek < limit) := by
  rw [taken, taken, List.takeWhile_takeWhile]
  congr 1
  funext item
  simp

theorem EndsBefore.taken_eq (hends : stream.EndsBefore limit) :
    stream.taken limit = stream.items := by
  rw [taken, List.takeWhile_eq_self_iff]
  simpa using hends.1

/-- A file that includes one whose exception is met. -/
theorem including_of_ends (hends : inner.EndsBefore after) :
    including start after outer inner =
      ⟨inner.items.map (raiseItem start), inner.endPeek,
        inner.exhausted && after = ⊤⟩ := by
  have htaken := hends.taken_eq
  rw [taken] at htaken
  rw [including, htaken, if_pos ⟨rfl, hends.2⟩]
  rfl

/-- A file that includes one whose exception is not met. -/
theorem including_of_not_ends (hends : ¬ inner.EndsBefore after) :
    including start after outer inner =
      { outer with items := (inner.taken after).map (raiseItem start) ++ outer.items } := by
  rw [including, if_neg]
  · rfl
  · rintro ⟨hlength, hend⟩
    apply hends
    have hself : inner.items.takeWhile (·.peek < after) = inner.items :=
      (List.takeWhile_prefix _).eq_of_length hlength
    rw [List.takeWhile_eq_self_iff] at hself
    exact ⟨by simpa using hself, hend⟩

theorem takeWhile_raiseItem (start limit : CalTime) (items : List CalItem) :
    (items.map (raiseItem start)).takeWhile (·.peek < limit) =
      (items.takeWhile (·.peek < limit)).map (raiseItem start) :=
  List.takeWhile_map

/-- A limit with an included file whose exception is met. -/
theorem taken_including_of_ends (hends : inner.EndsBefore after) :
    (including start after outer inner).taken limit =
        (inner.taken (min limit after)).map (raiseItem start) ∧
      ((including start after outer inner).EndsBefore limit ↔
        inner.EndsBefore (min limit after)) := by
  rw [including_of_ends hends]
  constructor
  · rw [taken_min, hends.taken_eq]
    exact takeWhile_raiseItem start limit inner.items
  · constructor
    · rintro ⟨hitems, hend⟩
      refine ⟨fun item hitem => lt_min ?_ (hends.1 item hitem), lt_min hend hends.2⟩
      exact hitems (raiseItem start item) (List.mem_map_of_mem hitem)
    · rintro ⟨hitems, hend⟩
      refine ⟨?_, lt_of_lt_of_le hend (min_le_left _ _)⟩
      intro raised hraised
      obtain ⟨item, hitem, rfl⟩ := List.mem_map.mp hraised
      exact lt_of_lt_of_le (hitems item hitem) (min_le_left _ _)

/-- A limit with an included file whose exception is not met. -/
theorem taken_including_of_not_ends (hends : ¬ inner.EndsBefore after)
    (houter : outer.peek = after) :
    (including start after outer inner).taken limit =
        (inner.taken (min limit after)).map (raiseItem start) ++ outer.taken limit ∧
      ((including start after outer inner).EndsBefore limit ↔ outer.EndsBefore limit) ∧
      ¬ inner.EndsBefore (min limit after) := by
  have hbefore : ∀ item ∈ inner.taken after, item.peek < after := by
    intro item hitem
    simpa using List.mem_takeWhile_imp hitem
  rw [including_of_not_ends hends]
  refine ⟨?_, ?_, ?_⟩
  · rw [taken_min]
    by_cases hall : ∀ item ∈ inner.taken after, item.peek < limit
    · have hself : (inner.taken after).takeWhile (·.peek < limit) = inner.taken after :=
        List.takeWhile_eq_self_iff.mpr (by simpa using hall)
      rw [hself, taken, taken]
      apply List.takeWhile_append_of_pos
      intro raised hraised
      obtain ⟨item, hitem, rfl⟩ := List.mem_map.mp hraised
      exact decide_eq_true (hall item hitem)
    · -- the limit is in the included file, so nothing of the including one is left
      push Not at hall
      obtain ⟨item, hitem, hge⟩ := hall
      have hlt : limit < after := lt_of_le_of_lt hge (hbefore item hitem)
      have hnone : outer.taken limit = [] := taken_of_le (by rw [houter]; exact hlt.le)
      rw [hnone, List.append_nil, taken, List.takeWhile_append, if_neg]
      · exact takeWhile_raiseItem start limit (inner.taken after)
      · intro hlength
        have hself := (List.takeWhile_prefix _).eq_of_length hlength
        rw [List.takeWhile_eq_self_iff] at hself
        have hlt' := hself (raiseItem start item) (List.mem_map_of_mem hitem)
        exact absurd (of_decide_eq_true hlt') (not_lt.mpr hge)
  · constructor
    · rintro ⟨hitems, hend⟩
      exact ⟨fun item hitem => hitems item (List.mem_append_right _ hitem), hend⟩
    · intro houter'
      have hlt : after < limit := houter ▸ houter'.peek_lt
      refine ⟨?_, houter'.2⟩
      intro item hitem
      rcases List.mem_append.mp hitem with hitem | hitem
      · obtain ⟨raw, hraw, rfl⟩ := List.mem_map.mp hitem
        exact lt_trans (hbefore raw hraw) hlt
      · exact houter'.1 item hitem
  · rintro ⟨hitems, hend⟩
    exact hends ⟨fun item hitem => lt_of_lt_of_le (hitems item hitem) (min_le_right _ _),
      lt_of_lt_of_le hend (min_le_right _ _)⟩

/-! ## Another time before the first record -/

/-- A promise that is early makes no difference if the record is before the limit anyway. -/
theorem taken_setPeek (hstart : start < limit) (hpeek : stream.peek < limit) :
    ((stream.setPeek start).taken limit).map CalItem.returned =
        (stream.taken limit).map CalItem.returned ∧
      ((stream.setPeek start).EndsBefore limit ↔ stream.EndsBefore limit) := by
  obtain ⟨items, endPeek, exhausted⟩ := stream
  cases items with
  | nil =>
      have hend : endPeek < limit := hpeek
      simp [setPeek, taken, EndsBefore, hstart, hend]
  | cons item items =>
      have hitem : item.peek < limit := hpeek
      simp [setPeek, taken, EndsBefore, hstart, hitem]

/-- A promise before the limit: a record is asked for, or the exception is met. -/
theorem taken_setPeek_ne_nil (hstart : start < limit)
    (hends : ¬ (stream.setPeek start).EndsBefore limit) :
    (stream.setPeek start).taken limit ≠ [] := by
  obtain ⟨items, endPeek, exhausted⟩ := stream
  cases items with
  | nil => exact absurd ⟨by simp [setPeek], hstart⟩ hends
  | cons item items => simp [setPeek, taken, hstart]

@[simp] theorem setPeek_exhausted (time : CalTime) (stream : CalStream) :
    (stream.setPeek time).exhausted = stream.exhausted := by
  obtain ⟨items, endPeek, exhausted⟩ := stream
  cases items <;> rfl

theorem length_taken_setPeek (hstart : start < limit) (stream : CalStream) :
    (stream.taken limit).length ≤ ((stream.setPeek start).taken limit).length := by
  rcases lt_or_ge stream.peek limit with hpeek | hpeek
  · have hsame := congrArg List.length (taken_setPeek hstart hpeek).1
    rw [List.length_map, List.length_map] at hsame
    exact hsame.ge
  · rw [taken_of_le hpeek]
    exact Nat.zero_le _

theorem EndsWell.of_setPeek (hstart : start < limit)
    (hwell : (stream.setPeek start).EndsWell limit) : stream.EndsWell limit := by
  intro hends
  have hends' := (taken_setPeek hstart hends.peek_lt).2.mpr hends
  simpa using hwell hends'

/-! ## Records -/

variable {time : ℤ} {file rest : List CalRecord}

/-- The stream of an included file. -/
def ofIncluded (start : CalTime) (file : List CalRecord) : CalStream :=
  if file.isEmpty then empty else ofRecords (startAt start file)

/-- The stream of a file that begins with an include record, apart from its first promise. -/
def ofExpanded (time : ℤ) (file rest : List CalRecord) : CalStream :=
  including (CalRecord.included time file).time (headTime rest) (ofRecords rest)
    (ofIncluded (CalRecord.included time file).time file)

theorem ofRecords_included (time : ℤ) (file rest : List CalRecord) :
    ofRecords (.included time file :: rest) =
      (ofExpanded time file rest).setPeek (CalRecord.included time file).time := by
  rw [ofRecords]
  rfl

theorem ofIncluded_of_ne_nil (hfile : file ≠ []) (start : CalTime) :
    ofIncluded start file = ofRecords (startAt start file) :=
  if_neg (by simpa using hfile)

theorem peek_ofExpanded (hfile : file ≠ []) :
    (ofExpanded time file rest).peek =
      min (headTime (startAt (CalRecord.included time file).time file)) (headTime rest) := by
  rw [ofExpanded, peek_including (peek_ofRecords rest), ofIncluded_of_ne_nil hfile, peek_ofRecords]

/-- A file without records has an exception at once. -/
theorem ofExpanded_nil :
    ofExpanded time [] rest = ⟨[], ⊥, headTime rest = ⊤⟩ := by
  have hinner : ofIncluded (CalRecord.included time []).time [] = empty := rfl
  rw [ofExpanded, hinner, empty, including_nil (bot_lt_headTime rest), Bool.true_and]

/-- An exception of the included file, no harm, is met before the limit of the including one only if
there is nothing after the include record. -/
theorem le_headTime_of_ends {inner : CalStream} (hwell : inner.EndsWell (min limit after))
    (hends : inner.EndsBefore after) : limit ≤ after := by
  by_contra hlt
  rw [min_eq_right (not_le.mp hlt).le] at hwell
  obtain ⟨htop, -⟩ := hwell hends
  exact hlt (htop ▸ le_top)

/-- The exceptions of a file that includes another are no harm if those of the two are none. -/
theorem endsWell_ofExpanded (hfile : file ≠ []) :
    (ofExpanded time file rest).EndsWell limit ↔
      (ofRecords (startAt (CalRecord.included time file).time file)).EndsWell
          (min limit (headTime rest)) ∧
        (ofRecords rest).EndsWell limit := by
  rw [ofExpanded, ofIncluded_of_ne_nil hfile]
  by_cases hends : (ofRecords (startAt (CalRecord.included time file).time file)).EndsBefore
      (headTime rest)
  · have hboth := (@taken_including_of_ends (CalRecord.included time file).time limit _
      (ofRecords rest) _ hends).2
    rw [EndsWell, hboth, including_of_ends hends]
    simp only [Bool.and_eq_true, decide_eq_true_iff]
    constructor
    · intro hwell
      have hinner : (ofRecords (startAt (CalRecord.included time file).time file)).EndsWell
          (min limit (headTime rest)) := by
        intro hmin
        obtain ⟨hlimit, hdone, hlast⟩ := hwell hmin
        rw [hlimit, hlast]
        exact ⟨min_self _, hdone⟩
      refine ⟨hinner, ?_⟩
      intro houter
      have hlt := houter.peek_lt
      rw [peek_ofRecords] at hlt
      exact absurd (le_headTime_of_ends hinner hends) (not_le.mpr hlt)
    · rintro ⟨hinner, -⟩ hmin
      obtain ⟨htop, hdone⟩ := hinner hmin
      obtain ⟨hlimit, hlast⟩ := min_eq_top.mp htop
      exact ⟨hlimit, hdone, hlast⟩
  · obtain ⟨-, hboth, hnot⟩ := @taken_including_of_not_ends (CalRecord.included time file).time
      limit _ (ofRecords rest) _ hends (peek_ofRecords rest)
    rw [EndsWell, hboth, including_of_not_ends hends]
    exact ⟨fun hwell => ⟨fun hmin => absurd hmin hnot, hwell⟩, fun hwell => hwell.2⟩

/-- What a limit leaves of a file that includes another. -/
theorem taken_ofExpanded (hfile : file ≠ []) (hwell : (ofExpanded time file rest).EndsWell limit) :
    (ofExpanded time file rest).taken limit =
      ((ofRecords (startAt (CalRecord.included time file).time file)).taken
          (min limit (headTime rest))).map (raiseItem (CalRecord.included time file).time) ++
        (ofRecords rest).taken limit := by
  obtain ⟨hinner, -⟩ := (endsWell_ofExpanded hfile).mp hwell
  rw [ofExpanded, ofIncluded_of_ne_nil hfile]
  by_cases hends : (ofRecords (startAt (CalRecord.included time file).time file)).EndsBefore
      (headTime rest)
  · have hle := le_headTime_of_ends hinner hends
    have hnone : (ofRecords rest).taken limit = [] := by
      apply taken_of_le
      rw [peek_ofRecords]
      exact hle
    rw [(taken_including_of_ends hends).1, hnone, List.append_nil]
  · exact (taken_including_of_not_ends hends (peek_ofRecords rest)).1

/-- The exception of a file without records is no harm only at the very end. -/
theorem EndsWell.of_nil (hlimit : ⊥ < limit) (hwell : (ofExpanded time [] rest).EndsWell limit) :
    limit = ⊤ ∧ rest = [] := by
  rw [ofExpanded_nil] at hwell
  obtain ⟨htop, hdone⟩ := hwell ⟨by simp, hlimit⟩
  exact ⟨htop, headTime_eq_top_iff.mp (of_decide_eq_true hdone)⟩

theorem taken_cons {item : CalItem} (hlt : item.peek < limit) :
    (stream.cons item).taken limit = item :: stream.taken limit :=
  List.takeWhile_cons_of_pos (decide_eq_true hlt)

theorem endsWell_cons {item : CalItem} (hlt : item.peek < limit) :
    (stream.cons item).EndsWell limit ↔ stream.EndsWell limit := by
  have hiff : (stream.cons item).EndsBefore limit ↔ stream.EndsBefore limit := by
    simp [EndsBefore, cons, hlt]
  rw [EndsWell, EndsWell, hiff]
  rfl

theorem ofRecords_cal (time : ℤ) (fields : List String) (rest : List CalRecord) :
    ofRecords (.cal time fields :: rest) =
      (ofRecords rest).cons
        ⟨(CalRecord.cal time fields).time, ((CalRecord.cal time fields).time, fields)⟩ := by
  rw [ofRecords]

/-- There never are fewer records than there should be, unless a file is left before its end. -/
theorem length_flattenWithin_le {limit : CalTime} {records : List CalRecord}
    (hwell : (ofRecords records).EndsWell limit) :
    (flattenWithin limit records).length ≤ ((ofRecords records).taken limit).length := by
  fun_induction flattenWithin limit records with
  | case1 limit => exact Nat.zero_le _
  | case2 limit time fields rest hlt ih =>
      rw [ofRecords_cal] at hwell ⊢
      rw [taken_cons hlt]
      exact Nat.succ_le_succ (ih ((endsWell_cons hlt).mp hwell))
  | case3 limit time fields rest hge => exact Nat.zero_le _
  | case4 limit time file rest hlt ihInner ihRest =>
      rw [ofRecords_included] at hwell ⊢
      refine le_trans ?_ (length_taken_setPeek hlt _)
      have hwell := hwell.of_setPeek hlt
      rw [List.length_append, List.length_map]
      by_cases hfile : file = []
      · subst hfile
        obtain ⟨-, rfl⟩ := hwell.of_nil (lt_of_le_of_lt bot_le hlt)
        have hnone : startAt (CalRecord.included time []).time [] = [] := rfl
        rw [hnone, flattenWithin, flattenWithin]
        exact Nat.zero_le _
      · obtain ⟨hinner, houter⟩ := (endsWell_ofExpanded hfile).mp hwell
        rw [taken_ofExpanded hfile hwell, List.length_append, List.length_map]
        exact Nat.add_le_add (ihInner hinner) (ihRest houter)
  | case5 limit time file rest hge => exact Nat.zero_le _

/-! ## The comparison -/

/-- **The condition is enough.**  What a limit leaves is the flattening. -/
theorem taken_eq_flattenWithin {limit : CalTime} {records : List CalRecord}
    (hreads : ReadsWithin limit records) :
    ((ofRecords records).taken limit).map CalItem.returned = flattenWithin limit records ∧
      (ofRecords records).EndsWell limit := by
  fun_induction flattenWithin limit records with
  | case1 limit =>
      rw [ofRecords]
      exact ⟨rfl, fun hends => absurd hends.2 not_top_lt⟩
  | case2 limit time fields rest hlt ih =>
      rw [ReadsWithin] at hreads
      obtain ⟨htaken, hwell⟩ := ih (hreads hlt)
      rw [ofRecords_cal, taken_cons hlt, List.map_cons, htaken, endsWell_cons hlt]
      exact ⟨rfl, hwell⟩
  | case3 limit time fields rest hge =>
      have hle : limit ≤ (ofRecords (.cal time fields :: rest)).peek := by
        rw [peek_ofRecords]
        exact not_lt.mp hge
      rw [taken_of_le hle]
      exact ⟨rfl, fun hends => absurd hends.peek_lt (not_lt.mpr hle)⟩
  | case4 limit time file rest hlt ihInner ihRest =>
      rw [ReadsWithin] at hreads
      obtain ⟨hnil, hnext, hinner, houter⟩ := hreads hlt
      rw [flattenWithin, if_pos hlt] at hnext
      rw [ofRecords_included]
      by_cases hfile : file = []
      · obtain ⟨rfl, rfl⟩ := hnil hfile
        subst hfile
        have hnone : startAt (CalRecord.included time []).time [] = [] := rfl
        rw [ofExpanded_nil, hnone, flattenWithin, flattenWithin]
        refine ⟨rfl, fun _ => ⟨rfl, ?_⟩⟩
        rw [setPeek_exhausted]
        simp [headTime]
      · obtain ⟨htaken, hwell⟩ := ihInner hinner
        obtain ⟨htaken', hwell'⟩ := ihRest houter
        have hboth : (ofExpanded time file rest).EndsWell limit :=
          (endsWell_ofExpanded hfile).mpr ⟨hwell, hwell'⟩
        have hflat : ((ofExpanded time file rest).taken limit).map CalItem.returned =
            (flattenWithin (min limit (headTime rest))
                (startAt (CalRecord.included time file).time file)).map
                (raise (CalRecord.included time file).time) ++ flattenWithin limit rest := by
          rw [taken_ofExpanded hfile hboth, List.map_append, htaken', ← htaken, List.map_map,
            List.map_map]
          rfl
        have hpeek : (ofExpanded time file rest).peek < limit := by
          by_cases htop : limit = ⊤
          · rw [htop, lt_top_iff_ne_top, peek_ofExpanded hfile, ne_eq, min_eq_top, not_and_or]
            left
            rw [headTime_eq_top_iff]
            exact CalFile.startAt_ne_nil hfile _
          · by_contra hge
            rw [taken_of_le (not_lt.mp hge)] at hflat
            exact hnext htop hflat.symm
        obtain ⟨hsame, hends⟩ := taken_setPeek hlt hpeek
        rw [hsame, hflat, EndsWell, hends, setPeek_exhausted]
        exact ⟨rfl, hboth⟩
  | case5 limit time file rest hge =>
      have hle : limit ≤ (ofRecords (.included time file :: rest)).peek := by
        rw [peek_ofRecords]
        exact not_lt.mp hge
      rw [taken_of_le hle]
      exact ⟨rfl, fun hends => absurd hends.peek_lt (not_lt.mpr hle)⟩

/-- **The condition is necessary.**  If there are no more records than there should be, and no
exception does harm, then it holds. -/
theorem readsWithin_of_length {limit : CalTime} {records : List CalRecord}
    (hlength : ((ofRecords records).taken limit).length = (flattenWithin limit records).length)
    (hwell : (ofRecords records).EndsWell limit) : ReadsWithin limit records := by
  fun_induction flattenWithin limit records with
  | case1 limit =>
      rw [ReadsWithin]
      trivial
  | case2 limit time fields rest hlt ih =>
      rw [ofRecords_cal, taken_cons hlt, List.length_cons, List.length_cons,
        Nat.add_right_cancel_iff] at hlength
      rw [ofRecords_cal, endsWell_cons hlt] at hwell
      rw [ReadsWithin]
      exact fun _ => ih hlength hwell
  | case3 limit time fields rest hge => exact readsWithin_of_le (not_lt.mp hge)
  | case4 limit time file rest hlt ihInner ihRest =>
      rw [ReadsWithin, flattenWithin, if_pos hlt]
      intro _
      rw [ofRecords_included] at hlength hwell
      have hexpanded := hwell.of_setPeek hlt
      by_cases hfile : file = []
      · subst hfile
        obtain ⟨rfl, rfl⟩ := hexpanded.of_nil (lt_of_le_of_lt bot_le hlt)
        have hnone : startAt (CalRecord.included time []).time [] = [] := rfl
        rw [hnone, ReadsWithin, ReadsWithin]
        exact ⟨fun _ => ⟨rfl, rfl⟩, fun htop => absurd rfl htop, trivial, trivial⟩
      · obtain ⟨hinner, houter⟩ := (endsWell_ofExpanded hfile).mp hexpanded
        have hmore := length_taken_setPeek hlt (ofExpanded time file rest)
        have hle := length_flattenWithin_le hinner
        have hle' := length_flattenWithin_le houter
        rw [taken_ofExpanded hfile hexpanded, hlength, List.length_append, List.length_map,
          List.length_append, List.length_map] at hmore
        refine ⟨fun hnil => absurd hnil hfile, ?_, ihInner (by omega) hinner,
          ihRest (by omega) houter⟩
        intro htop hflat
        have hne := taken_setPeek_ne_nil hlt fun hends => htop (hwell hends).1
        rw [hflat] at hlength
        exact hne (List.length_eq_zero_iff.mp hlength)
  | case5 limit time file rest hge => exact readsWithin_of_le (not_lt.mp hge)

/-- All promises are times, and a stream whose end was promised is at the end of all files. -/
structure Honest (stream : CalStream) : Prop where
  lt_top : ∀ item ∈ stream.items, item.peek < ⊤
  exhausted : stream.endPeek = ⊤ → stream.exhausted = true

theorem Honest.setPeek (hhonest : stream.Honest) (hstart : start < ⊤) :
    (stream.setPeek start).Honest := by
  obtain ⟨items, endPeek, exhausted⟩ := stream
  cases items with
  | nil => exact ⟨by simp [CalStream.setPeek], fun hend => absurd hend hstart.ne⟩
  | cons item items =>
      refine ⟨?_, hhonest.exhausted⟩
      intro other hother
      rcases List.mem_cons.mp hother with rfl | hother
      · exact hstart
      · exact hhonest.lt_top other (List.mem_cons_of_mem _ hother)

theorem Honest.including (houter : outer.Honest) (hinner : ∀ item ∈ inner.items, item.peek < ⊤) :
    (including start after outer inner).Honest := by
  by_cases hends : inner.EndsBefore after
  · rw [including_of_ends hends]
    refine ⟨?_, fun hend => absurd hend (ne_top_of_lt hends.2)⟩
    intro raised hraised
    obtain ⟨item, hitem, rfl⟩ := List.mem_map.mp hraised
    exact hinner item hitem
  · rw [including_of_not_ends hends]
    refine ⟨?_, houter.exhausted⟩
    intro item hitem
    rcases List.mem_append.mp hitem with hitem | hitem
    · obtain ⟨raw, hraw, rfl⟩ := List.mem_map.mp hitem
      exact hinner raw ((List.takeWhile_prefix _).subset hraw)
    · exact houter.lt_top item hitem

theorem honest_ofRecords (records : List CalRecord) : (ofRecords records).Honest := by
  match records with
  | [] =>
      rw [ofRecords]
      exact ⟨by simp, fun _ => rfl⟩
  | .cal time fields :: rest =>
      have hrest := honest_ofRecords rest
      rw [ofRecords_cal]
      refine ⟨?_, hrest.exhausted⟩
      intro item hitem
      rcases List.mem_cons.mp hitem with rfl | hitem
      · exact lt_top_iff_ne_top.mpr (CalRecord.cal time fields).time_ne_top
      · exact hrest.lt_top item hitem
  | .included time file :: rest =>
      have hstart : (CalRecord.included time file).time < ⊤ :=
        lt_top_iff_ne_top.mpr (CalRecord.included time file).time_ne_top
      have hinner : ∀ item ∈ (ofIncluded (CalRecord.included time file).time file).items,
          item.peek < ⊤ := by
        unfold ofIncluded
        split
        · simp [empty]
        · exact (honest_ofRecords (startAt (CalRecord.included time file).time file)).lt_top
      rw [ofRecords_included]
      exact ((honest_ofRecords rest).including hinner).setPeek hstart
termination_by sizeOf records
decreasing_by
  · simp only [List.cons.sizeOf_spec]
    omega
  · have hle := sizeOf_startAt (CalRecord.included time file).time file
    simp only [List.cons.sizeOf_spec, CalRecord.included.sizeOf_spec]
    omega
  · simp only [List.cons.sizeOf_spec]
    omega

/-- **A file is read as its flattening exactly under the condition.** -/
theorem items_eq_flatten_iff (file : List CalRecord) :
    ((ofRecords file).items.map CalItem.returned = flatten file ∧
        (ofRecords file).exhausted = true) ↔ ReadsWithin ⊤ file := by
  have hhonest := honest_ofRecords file
  have hall : (ofRecords file).taken ⊤ = (ofRecords file).items :=
    List.takeWhile_eq_self_iff.mpr fun item hitem => decide_eq_true (hhonest.lt_top item hitem)
  constructor
  · rintro ⟨hitems, hexhausted⟩
    apply readsWithin_of_length
    · rw [hall, ← List.length_map, hitems]
      rfl
    · exact fun _ => ⟨rfl, hexhausted⟩
  · intro hreads
    obtain ⟨htaken, hwell⟩ := taken_eq_flattenWithin hreads
    rw [hall] at htaken
    refine ⟨htaken, ?_⟩
    rcases eq_or_ne (ofRecords file).endPeek ⊤ with hend | hend
    · exact hhonest.exhausted hend
    · exact (hwell ⟨hhonest.lt_top, lt_top_iff_ne_top.mpr hend⟩).2

end CalStream

end Nidas.Core
