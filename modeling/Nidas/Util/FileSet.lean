import Nidas.Core.Sample
import Nidas.Lib.Buckets
import Nidas.Util.UTime

/-!
# Files that are named by times

`FileSet::createFile` (`util/FileSet.cc`) opens a file whose name is made of a time, and returns the
time at which the next one is to be opened.  The time of the name is a multiple of the length of the
files, unless the exact time is asked for or the name is taken.  The system answers to each attempt
to open a file that must not exist.
-/

namespace Nidas.Util

open Core Lib

/-- `UTime::earlier` -/
def earlier (utime y : ℤ) : ℤ :=
  if y = 0 then utime
  else
    let ymod := utime.tmod y
    if ymod ≥ 0 then utime - ymod else utime - (y + ymod)

/-- What `open` does with `O_CREAT | O_EXCL`: it opens a new file, or fails with `EEXIST` or with
another error. -/
inductive CreateAnswer where
  | created
  | exists
  | error
  deriving DecidableEq, Repr

/-- The members of a `FileSet` that writing uses; `timeFields` is whether there is a `%` in
`_fullpath`. -/
structure FileSet where
  fileLength : ℤ := longLongMax
  timeFields : Bool := true
  deriving DecidableEq, Repr

namespace FileSet

/-- The time of the name. -/
def nameTime (fset : FileSet) (ftime : ℤ) (exact : Bool) : ℤ :=
  if !exact && decide (fset.fileLength < longLongMax) then earlier ftime fset.fileLength else ftime

/-- The time of the next file. -/
def nextFileTime (fset : FileSet) (ntime : ℤ) : ℤ :=
  if fset.fileLength < longLongMax then earlier (ntime + fset.fileLength) fset.fileLength
  else longLongMax

/-- A file that has been created: the time of its name, and the time of the next one. -/
structure Created where
  time : ℤ
  next : ℤ
  deriving DecidableEq, Repr

/-- `FileSet::createFile` with a bound on its recursion; none inside is an `IOException`.  `opened`
counts the attempts. -/
def createFile (fset : FileSet) (answers : ℕ → CreateAnswer) :
    ℕ → ℤ → Bool → ℕ → Option (Option Created × ℕ)
  | 0, _, _, _ => none
  | fuel + 1, ftime, exact, opened =>
      let ntime := fset.nameTime ftime exact
      match answers opened with
      | .created => some (some ⟨ntime, fset.nextFileTime ntime⟩, opened + 1)
      | .exists =>
          if fset.timeFields then
            if !exact then createFile fset answers fuel ftime true (opened + 1)
            else createFile fset answers fuel (ftime + usecsPerSec) true (opened + 1)
          else some (none, opened + 1)
      | .error => some (none, opened + 1)

end FileSet

/-! ## Times of files -/

theorem earlier_eq {y : ℤ} (hy : 0 < y) (t : ℤ) : earlier t y = periodEnd y t - y := by
  unfold earlier periodEnd
  rw [if_neg hy.ne', Int.tmod_eq_emod]
  have hnonneg := Int.emod_nonneg t hy.ne'
  have hlt := Int.emod_lt_of_pos t hy
  dsimp only
  split
  · rw [if_pos (by omega)]
    omega
  · have habs : (y.natAbs : ℤ) = y := Int.natAbs_of_nonneg hy.le
    rw [habs, if_neg (by omega)]
    omega

namespace FileSet

variable {fset : FileSet}

theorem nextFileTime_eq (hlen : 0 < fset.fileLength) (hfinite : fset.fileLength < longLongMax)
    (t : ℤ) : fset.nextFileTime t = periodEnd fset.fileLength t := by
  unfold nextFileTime
  rw [if_pos hfinite, earlier_eq hlen]
  unfold periodEnd
  rw [Int.add_emod_right]
  omega

/-- Every time is in the period of its file. -/
theorem lt_nextFileTime (hlen : 0 < fset.fileLength) {t : ℤ} (ht : t < longLongMax) :
    t < fset.nextFileTime t := by
  by_cases hfinite : fset.fileLength < longLongMax
  · rw [nextFileTime_eq hlen hfinite]
    exact lt_periodEnd hlen t
  · unfold nextFileTime
    rwa [if_neg hfinite]

theorem nextFileTime_mono (hlen : 0 < fset.fileLength) {t t' : ℤ} (h : t ≤ t') :
    fset.nextFileTime t ≤ fset.nextFileTime t' := by
  by_cases hfinite : fset.fileLength < longLongMax
  · rw [nextFileTime_eq hlen hfinite, nextFileTime_eq hlen hfinite]
    exact periodEnd_mono hlen h
  · unfold nextFileTime
    rw [if_neg hfinite, if_neg hfinite]

/-- The time of the name is in the same period. -/
theorem nextFileTime_nameTime (hlen : 0 < fset.fileLength) (ftime : ℤ) (exact : Bool) :
    fset.nextFileTime (fset.nameTime ftime exact) = fset.nextFileTime ftime := by
  unfold nameTime
  split
  · next hround =>
      have hfinite : fset.fileLength < longLongMax := by
        cases exact with
        | true => cases hround
        | false => simpa using hround
      rw [nextFileTime_eq hlen hfinite, nextFileTime_eq hlen hfinite, earlier_eq hlen]
      unfold periodEnd
      rw [show ftime - ftime % fset.fileLength + fset.fileLength - fset.fileLength =
        ftime - ftime % fset.fileLength by omega]
      rw [Int.emod_eq_zero_of_dvd Int.dvd_self_sub_emod]
      omega
  · rfl

variable {answers : ℕ → CreateAnswer} {fuel opened opened' : ℕ} {ftime : ℤ} {exact : Bool}
  {made : Created}

/-- **The next file does not start before the period of the time is over**, also when the name has
been taken and later times have been tried. -/
theorem next_of_createFile (hlen : 0 < fset.fileLength)
    (h : fset.createFile answers fuel ftime exact opened = some (some made, opened')) :
    made.next = fset.nextFileTime made.time ∧ fset.nextFileTime ftime ≤ made.next := by
  induction fuel generalizing ftime exact opened with
  | zero => cases h
  | succ fuel ih =>
      rw [createFile] at h
      split at h
      · cases h
        exact ⟨rfl, (nextFileTime_nameTime hlen ftime exact).ge⟩
      · split at h
        · split at h
          · exact ih h
          · obtain ⟨hnext, hle⟩ := ih h
            have hlater : ftime ≤ ftime + usecsPerSec := by
              unfold usecsPerSec
              omega
            exact ⟨hnext, (nextFileTime_mono hlen hlater).trans hle⟩
        · cases h
      · cases h

/-- If names are not taken, the name of the file is from the period of the time. -/
theorem next_of_untaken (hlen : 0 < fset.fileLength) (huntaken : ∀ n, answers n ≠ .exists)
    (h : fset.createFile answers fuel ftime exact opened = some (some made, opened')) :
    made.next = fset.nextFileTime ftime := by
  cases fuel with
  | zero => cases h
  | succ fuel =>
      rw [createFile] at h
      split at h
      · cases h
        exact nextFileTime_nameTime hlen ftime exact
      · next htaken => exact absurd htaken (huntaken opened)
      · cases h

/-- At any attempt, a name that is not taken is found before a bound. -/
def Creates (answers : ℕ → CreateAnswer) (bound : ℕ) : Prop :=
  ∀ opened, ∃ taken < bound, answers (opened + taken) = .created ∧
    ∀ n < taken, answers (opened + n) = .exists

theorem createFile_of_taken (hfields : fset.timeFields = true) {taken : ℕ} (htaken : taken < fuel)
    (hcreated : answers (opened + taken) = .created)
    (hexists : ∀ n < taken, answers (opened + n) = .exists) (ftime : ℤ) (exact : Bool) :
    ∃ made opened', fset.createFile answers fuel ftime exact opened =
      some (some made, opened') := by
  induction fuel generalizing ftime exact opened taken with
  | zero => cases htaken
  | succ fuel ih =>
      cases taken with
      | zero =>
          rw [Nat.add_zero] at hcreated
          rw [createFile, hcreated]
          exact ⟨_, _, rfl⟩
      | succ taken =>
          have hfirst := hexists 0 (Nat.zero_lt_succ taken)
          rw [Nat.add_zero] at hfirst
          rw [Nat.add_comm taken, ← Nat.add_assoc] at hcreated
          have hlater (n : ℕ) (hn : n < taken) : answers (opened + 1 + n) = .exists := by
            have hnext := hexists (n + 1) (Nat.succ_lt_succ hn)
            rwa [Nat.add_comm n, ← Nat.add_assoc] at hnext
          rw [createFile, hfirst]
          dsimp only
          rw [if_pos hfields]
          split
          · exact ih (Nat.lt_of_succ_lt_succ htaken) hcreated hlater ftime true
          · exact ih (Nat.lt_of_succ_lt_succ htaken) hcreated hlater (ftime + usecsPerSec) true

/-- A file is created in the end. -/
theorem createFile_of_creates (hfields : fset.timeFields = true) (h : Creates answers fuel)
    (ftime : ℤ) (exact : Bool) (opened : ℕ) :
    ∃ made opened', fset.createFile answers fuel ftime exact opened =
      some (some made, opened') := by
  obtain ⟨taken, htaken, hcreated, hexists⟩ := h opened
  exact createFile_of_taken hfields htaken hcreated hexists ftime exact

end FileSet

end Nidas.Util
