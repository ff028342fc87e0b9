import Mathlib.Data.List.MinMax
import Mathlib.Data.List.Sort
import Mathlib.Order.BoundedOrder.Basic
import Mathlib.Algebra.Order.Ring.Int

/-!
# Calibration records and their flattening

A calibration file is a list of records with times.  A record has the fields of a calibration, or it
is an include record that names another file.  Since no file includes itself, not even through
others, a set of files is a tree: an include record holds the records of the file that it names.

`flatten` is what a reader of such a file should see.  An include record stands for the records of
its file from the one that is in force at its time up to the next record of the including file.
-/

namespace Nidas.Core

/-- The times of a `CalFile`: `UTime::MIN`, the time of a record, or `UTime::MAX`. -/
inductive CalTime where
  | MIN
  | ofRecord (time : ℤ)
  | MAX
  deriving DecidableEq, Repr

namespace CalTime

/-- The order of times. -/
protected def le : CalTime → CalTime → Bool
  | MIN, _ => true
  | _, MAX => true
  | ofRecord first, ofRecord second => first ≤ second
  | _, _ => false

instance : LinearOrder CalTime where
  le first second := CalTime.le first second = true
  le_refl time := by cases time <;> simp [CalTime.le]
  le_trans first second third := by
    cases first <;> cases second <;> cases third <;> simp [CalTime.le]
    omega
  le_antisymm first second := by
    cases first <;> cases second <;> simp [CalTime.le]
    omega
  le_total first second := by
    cases first <;> cases second <;> simp [CalTime.le]
    omega
  toDecidableLE first second := inferInstanceAs (Decidable (CalTime.le first second = true))

instance : BoundedOrder CalTime where
  top := MAX
  le_top time := by
    change CalTime.le time MAX = true
    cases time <;> rfl
  bot := MIN
  bot_le time := by
    change CalTime.le MIN time = true
    cases time <;> rfl

instance : Nontrivial CalTime := ⟨MIN, MAX, CalTime.noConfusion⟩

@[simp]
theorem ofRecord_le_ofRecord {first second : ℤ} :
    ofRecord first ≤ ofRecord second ↔ first ≤ second := by
  change CalTime.le _ _ = true ↔ _
  simp [CalTime.le]

@[simp]
theorem ofRecord_lt_ofRecord {first second : ℤ} :
    ofRecord first < ofRecord second ↔ first < second := by
  rw [lt_iff_not_ge, ofRecord_le_ofRecord, not_le]

end CalTime

/-- A record of a calibration file. -/
inductive CalRecord where
  | cal (time : ℤ) (fields : List String)
  | included (time : ℤ) (file : List CalRecord)

namespace CalRecord

/-- The time of a record; an include record has its own. -/
def time : CalRecord → CalTime
  | cal time _ => .ofRecord time
  | included time _ => .ofRecord time

/-- What is returned for a record: its time and its fields. -/
abbrev Returned := CalTime × List String

/-- The time of the next record, `MAX` without one. -/
def headTime : List CalRecord → CalTime
  | [] => ⊤
  | record :: _ => record.time

/-- The greatest time of some records that is not after `start`. -/
def greatestUpTo (start : CalTime) (records : List CalRecord) : Option CalTime :=
  ((records.map time).filter (· ≤ start)).max?

/-- The records of an included file from the first of those that share the greatest time not after
`start`, or all of them if there is none. -/
def startAt (start : CalTime) (file : List CalRecord) : List CalRecord :=
  match greatestUpTo start file with
  | some greatest => file.dropWhile (·.time ≠ greatest)
  | none => file

/-- A time is raised to that of the include record. -/
def raise (start : CalTime) (returned : Returned) : Returned := (max start returned.1, returned.2)

theorem startAt_suffix (start : CalTime) (file : List CalRecord) : startAt start file <:+ file := by
  unfold startAt
  split
  · exact List.dropWhile_suffix _
  · exact List.suffix_refl file

theorem sizeOf_suffix {records file : List CalRecord} (hsuffix : records <:+ file) :
    sizeOf records ≤ sizeOf file := by
  obtain ⟨front, rfl⟩ := hsuffix
  induction front with
  | nil => exact le_refl _
  | cons record front ih =>
      rw [List.cons_append, List.cons.sizeOf_spec]
      omega

theorem sizeOf_startAt (start : CalTime) (file : List CalRecord) :
    sizeOf (startAt start file) ≤ sizeOf file :=
  sizeOf_suffix (startAt_suffix start file)

/-- The flattening of some records up to a limit. -/
def flattenWithin (limit : CalTime) : List CalRecord → List Returned
  | [] => []
  | cal time fields :: rest =>
      if (cal time fields).time < limit then
        ((cal time fields).time, fields) :: flattenWithin limit rest
      else []
  | included time file :: rest =>
      if (included time file).time < limit then
        (flattenWithin (min limit (headTime rest)) (startAt (included time file).time file)).map
            (raise (included time file).time) ++
          flattenWithin limit rest
      else []
termination_by records => sizeOf records
decreasing_by
  · simp only [List.cons.sizeOf_spec]
    omega
  · have hle := sizeOf_startAt (included time file).time file
    simp only [List.cons.sizeOf_spec, included.sizeOf_spec]
    omega
  · simp only [List.cons.sizeOf_spec]
    omega

/-- What a reader of a file should see. -/
def flatten (file : List CalRecord) : List Returned := flattenWithin ⊤ file

/-- The records of a file and of all files that it includes are in the order of time. -/
def Ordered : List CalRecord → Prop
  | [] => True
  | cal time fields :: rest => (cal time fields).time ≤ headTime rest ∧ Ordered rest
  | included time file :: rest =>
      (included time file).time ≤ headTime rest ∧ Ordered file ∧ Ordered rest

/-! ## Records in order -/

variable {record : CalRecord} {records : List CalRecord}

theorem time_ne_top (record : CalRecord) : record.time ≠ ⊤ := by
  cases record <;> exact CalTime.noConfusion

theorem bot_lt_time (record : CalRecord) : ⊥ < record.time := by
  rw [bot_lt_iff_ne_bot]
  cases record <;> exact CalTime.noConfusion

theorem Ordered.head_le (hordered : Ordered (record :: records)) :
    record.time ≤ headTime records := by
  cases record <;> (rw [Ordered] at hordered; exact hordered.1)

theorem Ordered.tail (hordered : Ordered (record :: records)) : Ordered records := by
  cases record with
  | cal time fields =>
      rw [Ordered] at hordered
      exact hordered.2
  | included time file =>
      rw [Ordered] at hordered
      exact hordered.2.2

theorem Ordered.file {time : ℤ} {file : List CalRecord}
    (hordered : Ordered (included time file :: records)) : Ordered file := by
  rw [Ordered] at hordered
  exact hordered.2.1

theorem Ordered.of_suffix {file : List CalRecord} (hordered : Ordered file)
    (hsuffix : records <:+ file) : Ordered records := by
  obtain ⟨front, rfl⟩ := hsuffix
  induction front with
  | nil => exact hordered
  | cons record front ih => exact ih hordered.tail

theorem Ordered.startAt {file : List CalRecord} (hordered : Ordered file) (start : CalTime) :
    Ordered (startAt start file) :=
  hordered.of_suffix (startAt_suffix start file)

theorem Ordered.le_of_mem (hordered : Ordered (record :: records)) {other : CalRecord}
    (hother : other ∈ records) : record.time ≤ other.time := by
  induction records generalizing record with
  | nil => cases hother
  | cons next records ih =>
      rcases List.mem_cons.mp hother with rfl | hother
      · exact hordered.head_le
      · exact le_trans hordered.head_le (ih hordered.tail hother)

theorem exists_of_greatestUpTo {start greatest : CalTime}
    (hgreatest : greatestUpTo start records = some greatest) :
    ∃ record ∈ records, record.time = greatest := by
  have hmem := List.max?_mem hgreatest
  exact List.mem_map.mp (List.mem_filter.mp hmem).1

theorem greatestUpTo_cons_of_le {start : CalTime} (hle : record.time ≤ start)
    (hordered : Ordered (record :: records)) :
    greatestUpTo start (record :: records) =
      some ((greatestUpTo start records).getD record.time) := by
  have hmax : greatestUpTo start (record :: records) =
      some ((greatestUpTo start records).elim record.time (max record.time)) := by
    rw [greatestUpTo, List.map_cons, List.filter_cons_of_pos (by simpa using hle), List.max?_cons]
    rfl
  rw [hmax]
  cases hgreatest : greatestUpTo start records with
  | none => rfl
  | some greatest =>
      obtain ⟨other, hother, rfl⟩ := exists_of_greatestUpTo hgreatest
      exact congrArg some (max_eq_right (hordered.le_of_mem hother))

theorem greatestUpTo_eq_none {start : CalTime} (hlt : ∀ record ∈ records, start < record.time) :
    greatestUpTo start records = none := by
  have hempty : (records.map time).filter (· ≤ start) = [] := by
    rw [List.filter_eq_nil_iff]
    intro time htime
    obtain ⟨record, hrecord, rfl⟩ := List.mem_map.mp htime
    simpa using hlt record hrecord
  rw [greatestUpTo, hempty]
  rfl

end CalRecord

end Nidas.Core
