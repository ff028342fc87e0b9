import Mathlib.Data.List.Infix
import Mathlib.Logic.Function.Basic
import Nidas.Core.Sample
import Nidas.Lib.Answers

/-!
# Matching samples with a cache

A `SampleMatcher` has a list of ranges, and the first of them that matches a sample decides whether
it is included.  For an id that no range matches, whatever its time and its file, it remembers that,
and does not look at the ranges again.

This file compares it with a `Reference` that has no cache, and that keeps the ranges as they were
added with the DSM id that `.` stands for.

## Strategy

`Agrees` says what the members of the matcher are for a state of the reference: the ranges with `.`
replaced, and in the cache the truth about the ranges.  Two things get in the way.

* A hit in the cache leaves the pointer to the deciding range as it was.  `match_with_reassign` has
  no value in it, so if such a sample is included its id depends on the contents of the stack.
* `_first_dsmid` is zero for "not set yet".  When the first sample has a DSM id of zero, a range
  with `.` that is added later gets another id.

Apart from these two the answers are those of the reference.
-/

namespace Nidas.Core

open Lib

/-! ## Ranges -/

/-- `id_range_t` -/
structure IdRange where
  first : ℤ := 0
  last : ℤ := 0
  deriving DecidableEq, Repr

/-- `RangeMatcher::MATCH_FIRST` -/
def matchFirst : ℤ := -9

/-- `RangeMatcher::MATCH_ALL` -/
def matchAll : ℤ := -1

/-- `RangeMatcher::MATCH_ALL_TIME` -/
def matchAllTime : ℤ := longLongMin

/-- The members of a `RangeMatcher`, with their defaults. -/
structure RangeMatcher where
  dsms : IdRange := {}
  sids : IdRange := ⟨matchAll, matchAll⟩
  time1 : ℤ := longLongMin
  time2 : ℤ := longLongMax
  filePattern : List Char := []
  includes : Bool := false
  targetDsms : IdRange := {}
  targetSids : IdRange := {}
  deriving DecidableEq, Repr

/-- Whether an id is outside of a range, as it is tested in `RangeMatcher::match`. -/
def IdRange.excludes (range : IdRange) (id : ℤ) : Bool :=
  id < range.first || (id > range.last && range.last ≥ 0)

/-- `remap_id` -/
def remapId (source target : IdRange) (id : ℤ) : ℤ :=
  if target.first ≠ 0 then
    if target.first = target.last then target.first else target.first + (id - source.first)
  else id

namespace RangeMatcher

/-- `RangeMatcher::set_first_dsm` -/
def setFirstDsm (dsmid : ℕ) (rm : RangeMatcher) : RangeMatcher :=
  if rm.dsms.first = matchFirst then { rm with dsms := ⟨dsmid, dsmid⟩ } else rm

/-- `RangeMatcher::match`, with the range as it is left. -/
def matchIds (rm : RangeMatcher) (dsmid sid : ℕ) : Bool × RangeMatcher :=
  if rm.sids.excludes sid then (false, rm)
  else
    let rm := if rm.dsms.first = matchFirst then { rm with dsms := ⟨dsmid, dsmid⟩ } else rm
    if rm.dsms.excludes dsmid then (false, rm) else (true, rm)

/-- `RangeMatcher::match_time` -/
def matchTime (rm : RangeMatcher) (stime : ℤ) : Bool :=
  stime = matchAllTime || (stime ≥ rm.time1 && (rm.time2 = 0 || stime ≤ rm.time2))

/-- `RangeMatcher::match_file` -/
def matchFile (rm : RangeMatcher) (filename : List Char) : Bool :=
  rm.filePattern.isEmpty || decide (rm.filePattern <:+: filename)

/-- `RangeMatcher::remap_ids` -/
def remapIds (rm : RangeMatcher) (dsmid sid : ℤ) : ℤ × ℤ :=
  (remapId rm.dsms rm.targetDsms dsmid, remapId rm.sids rm.targetSids sid)

end RangeMatcher

/-! ## Ids -/

/-- `GET_DSM_ID` -/
def getDSMId (id : ℕ) : ℕ := id / 2 ^ 16 % 2 ^ 10

/-- `GET_SPS_ID` -/
def getSpSId (id : ℕ) : ℕ := id % 2 ^ 16

/-- `SET_DSM_ID` -/
def setDSMId (id : ℕ) (value : ℤ) : ℕ :=
  id / 2 ^ 26 * 2 ^ 26 + (value % 2 ^ 10).toNat * 2 ^ 16 + id % 2 ^ 16

/-- `SET_SPS_ID` -/
def setSpSId (id : ℕ) (value : ℤ) : ℕ := id / 2 ^ 16 * 2 ^ 16 + (value % 2 ^ 16).toNat

/-- The end of `SampleMatcher::match_with_reassign`: the id of a sample that a range includes. -/
def RangeMatcher.reassign (rm : RangeMatcher) (id : ℕ) : ℕ :=
  if rm.targetDsms.first ≠ 0 ∨ rm.targetSids.first ≠ 0 then
    let (did, sid) := rm.remapIds (getDSMId id) (getSpSId id)
    setSpSId (setDSMId id did) sid
  else id

/-! ## The matcher -/

/-- What `match_range` leaves in the pointer of its caller: what was there before, or a pointer to a
range, which can be null. -/
inductive RmOut where
  | untouched
  | set (rm : Option RangeMatcher)

/-- The members of a `SampleMatcher`. -/
structure SampleMatcher where
  ranges : List RangeMatcher := []
  lookup : ℕ → Option Bool := fun _ => none
  startTime : ℤ := longLongMin
  endTime : ℤ := longLongMax
  firstDsmid : ℕ := 0
  allExcludes : Bool := true
  nsamples : ℕ := 0
  nexcluded : ℕ := 0
  ncached : ℕ := 0

namespace SampleMatcher

/-- `SampleMatcher::addCriteria` of a range -/
def addCriteria (matcher : SampleMatcher) (rm : RangeMatcher) : SampleMatcher :=
  let added := if matcher.firstDsmid ≠ 0 then rm.setFirstDsm matcher.firstDsmid else rm
  let ranges := matcher.ranges ++ [added]
  { matcher with
    ranges := ranges
    allExcludes := ranges.all fun rm => !rm.includes
    lookup := fun _ => none }

/-- The loop over the ranges in `match_range`: the ranges as they are left, whether the id was
matched, and the range at which the loop was left. -/
def search (did sid : ℕ) (tt : ℤ) (filename : List Char) :
    List RangeMatcher → List RangeMatcher × Bool × Option RangeMatcher
  | [] => ([], false, none)
  | rm :: rest =>
      let (matched, rm) := rm.matchIds did sid
      if matched && rm.matchTime tt && rm.matchFile filename then (rm :: rest, true, some rm)
      else
        let (rest, idMatched, found) := search did sid tt filename rest
        (rm :: rest, matched || idMatched, found)

/-- The first DSM id is set in `match_range`. -/
def resolveFirst (matcher : SampleMatcher) (did : ℕ) : SampleMatcher :=
  if matcher.firstDsmid = 0 then
    { matcher with firstDsmid := did, ranges := matcher.ranges.map (RangeMatcher.setFirstDsm did) }
  else matcher

/-- `SampleMatcher::match_range`, with what it returns and what it leaves in `*rm_out`. -/
def matchRange (matcher : SampleMatcher) (id : ℕ) (tt : ℤ) (filename : List Char) :
    SampleMatcher × Bool × RmOut :=
  let matcher := { matcher with nsamples := matcher.nsamples + 1 }
  if matcher.lookup id = some false then
    let excluded := if matcher.allExcludes then 0 else 1
    ({ matcher with ncached := matcher.ncached + 1, nexcluded := matcher.nexcluded + excluded },
      matcher.allExcludes, .untouched)
  else
    let did := getDSMId id
    let sid := getSpSId id
    let matcher := matcher.resolveFirst did
    let (ranges, idMatched, found) := search did sid tt filename matcher.ranges
    let result := (matcher.allExcludes && found.isNone) || found.any RangeMatcher.includes
    ({ matcher with
        ranges := ranges
        lookup := Function.update matcher.lookup id (some idMatched)
        nexcluded := matcher.nexcluded + if result then 0 else 1 },
      result, .set found)

/-- Whether a time is inside the window of the matcher. -/
def inWindow (startTime endTime tt : ℤ) : Bool := startTime ≤ tt && tt ≤ endTime

/-- The calls of a matcher.  `matchId` is `SampleMatcher::match` of an id, which does not look at
the window. -/
inductive Call where
  | addCriteria (rm : RangeMatcher)
  | matchId (id : ℕ) (tt : ℤ) (filename : List Char)
  | matchSample (samp : Sample) (inputname : List Char)
  | matchWithReassign (samp : Sample) (inputname : List Char)

/-- What is seen of a call: the result, and after `match_with_reassign` also the id of the sample.
`undefined` is when a pointer is read that was never set. -/
inductive Answer where
  | added
  | matched (result : Bool)
  | reassigned (result : Bool) (id : ℕ)
  | undefined
  deriving DecidableEq

/-- `SampleMatcher::match` of a sample -/
def matchSample (matcher : SampleMatcher) (samp : Sample) (inputname : List Char) :
    SampleMatcher × Answer :=
  if inWindow matcher.startTime matcher.endTime samp.timeTag then
    let (matcher, result, _) := matcher.matchRange samp.id samp.timeTag inputname
    (matcher, .matched result)
  else (matcher, .matched false)

/-- `SampleMatcher::match_with_reassign` -/
def matchWithReassign (matcher : SampleMatcher) (samp : Sample) (inputname : List Char) :
    SampleMatcher × Answer :=
  if inWindow matcher.startTime matcher.endTime samp.timeTag then
    match matcher.matchRange samp.id samp.timeTag inputname with
    | (matcher, false, _) => (matcher, .reassigned false samp.id)
    | (matcher, true, .untouched) => (matcher, .undefined)
    | (matcher, true, .set none) => (matcher, .reassigned true samp.id)
    | (matcher, true, .set (some rm)) => (matcher, .reassigned true (rm.reassign samp.id))
  else (matcher, .reassigned false samp.id)

/-- One call. -/
def respond (matcher : SampleMatcher) : Call → SampleMatcher × Answer
  | .addCriteria rm => (matcher.addCriteria rm, .added)
  | .matchId id tt filename =>
      let (matcher, result, _) := matcher.matchRange id tt filename
      (matcher, .matched result)
  | .matchSample samp inputname => matcher.matchSample samp inputname
  | .matchWithReassign samp inputname => matcher.matchWithReassign samp inputname

end SampleMatcher

/-! ## The reference -/

/-- Whether the ids are in the ranges of ids; a range without an end has a negative one. -/
def RangeMatcher.Covers (rm : RangeMatcher) (did sid : ℕ) : Prop :=
  (rm.sids.first ≤ sid ∧ (sid ≤ rm.sids.last ∨ rm.sids.last < 0)) ∧
    rm.dsms.first ≤ did ∧ (did ≤ rm.dsms.last ∨ rm.dsms.last < 0)

instance (rm : RangeMatcher) (did sid : ℕ) : Decidable (rm.Covers did sid) :=
  inferInstanceAs (Decidable (_ ∧ _))

/-- A matcher without a cache: the ranges as they were added, and the DSM id of the first sample
that was examined. -/
structure Reference where
  ranges : List RangeMatcher := []
  first : Option ℕ := none

namespace Reference

open SampleMatcher (Call Answer inWindow)

/-- The DSM id that `.` stands for when a sample is examined, which is the first one if there was
none before. -/
def firstDsm (reference : Reference) (id : ℕ) : ℕ := reference.first.getD (getDSMId id)

/-- The range that decides: the first that matches the id, the time and the file. -/
def deciding (reference : Reference) (id : ℕ) (tt : ℤ) (filename : List Char) :
    Option RangeMatcher :=
  (reference.ranges.map (RangeMatcher.setFirstDsm (reference.firstDsm id))).find? fun rm =>
    rm.Covers (getDSMId id) (getSpSId id) && rm.matchTime tt && rm.matchFile filename

/-- Without a deciding range a sample is included if all ranges are exclusions. -/
def decision (reference : Reference) (id : ℕ) (tt : ℤ) (filename : List Char) : Bool :=
  match reference.deciding id tt filename with
  | some rm => rm.includes
  | none => reference.ranges.all fun rm => !rm.includes

/-- A sample has been examined. -/
def examined (reference : Reference) (id : ℕ) : Reference :=
  { reference with first := some (reference.firstDsm id) }

/-- What the answer to a call should be, in a window. -/
def respond (startTime endTime : ℤ) (reference : Reference) : Call → Reference × Answer
  | .addCriteria rm => ({ reference with ranges := reference.ranges ++ [rm] }, .added)
  | .matchId id tt filename =>
      (reference.examined id, .matched (reference.decision id tt filename))
  | .matchSample samp inputname =>
      if inWindow startTime endTime samp.timeTag then
        (reference.examined samp.id,
          .matched (reference.decision samp.id samp.timeTag inputname))
      else (reference, .matched false)
  | .matchWithReassign samp inputname =>
      if inWindow startTime endTime samp.timeTag then
        let id :=
          if reference.decision samp.id samp.timeTag inputname then
            ((reference.deciding samp.id samp.timeTag inputname).map fun rm =>
              rm.reassign samp.id).getD samp.id
          else samp.id
        (reference.examined samp.id,
          .reassigned (reference.decision samp.id samp.timeTag inputname) id)
      else (reference, .reassigned false samp.id)

end Reference

/-! ## Ranges that are resolved -/

namespace RangeMatcher

variable {rm : RangeMatcher}

/-- A range in which there is no `.` any more. -/
def Resolved (rm : RangeMatcher) : Prop := rm.dsms.first ≠ matchFirst

theorem resolved_setFirstDsm (dsmid : ℕ) (rm : RangeMatcher) : (rm.setFirstDsm dsmid).Resolved := by
  unfold setFirstDsm
  split
  · change (dsmid : ℤ) ≠ matchFirst
    unfold matchFirst
    omega
  · assumption

theorem Resolved.setFirstDsm (hresolved : rm.Resolved) (dsmid : ℕ) : rm.setFirstDsm dsmid = rm :=
  if_neg hresolved

theorem setFirstDsm_includes (dsmid : ℕ) (rm : RangeMatcher) :
    (rm.setFirstDsm dsmid).includes = rm.includes := by
  unfold RangeMatcher.setFirstDsm
  split <;> rfl

theorem excludes_eq_false_iff (range : IdRange) (id : ℤ) :
    range.excludes id = false ↔ range.first ≤ id ∧ (id ≤ range.last ∨ range.last < 0) := by
  simp only [IdRange.excludes, Bool.or_eq_false_iff, Bool.and_eq_false_iff,
    decide_eq_false_iff_not]
  omega

/-- On a range without `.`, the match is a test of the ids. -/
theorem Resolved.matchIds (hresolved : rm.Resolved) (did sid : ℕ) :
    rm.matchIds did sid = (decide (rm.Covers did sid), rm) := by
  have hsids := excludes_eq_false_iff rm.sids sid
  have hdsms := excludes_eq_false_iff rm.dsms did
  unfold RangeMatcher.matchIds
  rw [if_neg hresolved]
  cases hsid : rm.sids.excludes sid with
  | true =>
      have hnot : ¬ rm.Covers did sid := fun hcovers => by simp [hsids.mpr hcovers.1] at hsid
      simp [hnot]
  | false =>
      cases hdid : rm.dsms.excludes did with
      | true =>
          have hnot : ¬ rm.Covers did sid := fun hcovers => by
            simp [hdsms.mpr hcovers.2] at hdid
          simp [hnot, hdid]
      | false =>
          have hcovers : rm.Covers did sid := ⟨hsids.mp hsid, hdsms.mp hdid⟩
          simp [hcovers, hdid]

end RangeMatcher

namespace SampleMatcher

/-- On ranges without `.`, the loop finds the first that matches and leaves them as they are. -/
theorem search_eq {ranges : List RangeMatcher} (hresolved : ∀ rm ∈ ranges, rm.Resolved)
    (did sid : ℕ) (tt : ℤ) (filename : List Char) :
    search did sid tt filename ranges =
      (ranges, ranges.any (fun rm => decide (rm.Covers did sid)),
        ranges.find? fun rm => rm.Covers did sid && rm.matchTime tt && rm.matchFile filename) := by
  induction ranges with
  | nil => rfl
  | cons rm rest ih =>
      have hrest := ih fun other hother => hresolved other (List.mem_cons_of_mem _ hother)
      rw [search, (hresolved rm List.mem_cons_self).matchIds]
      dsimp only
      rw [hrest, List.any_cons, List.find?_cons]
      cases hcase : decide (rm.Covers did sid) && rm.matchTime tt && rm.matchFile filename with
      | true =>
          have hcovers : decide (rm.Covers did sid) = true := by
            simp only [Bool.and_eq_true] at hcase
            exact hcase.1.1
          simp [hcovers]
      | false => simp

/-! ## The matcher and the reference -/

/-- What the members of a matcher are for a state of the reference. -/
structure Agrees (startTime endTime : ℤ) (matcher : SampleMatcher) (reference : Reference) :
    Prop where
  startTime_eq : matcher.startTime = startTime
  endTime_eq : matcher.endTime = endTime
  allExcludes : matcher.allExcludes = reference.ranges.all fun rm => !rm.includes
  fresh : reference.first = none →
    matcher.firstDsmid = 0 ∧ matcher.ranges = reference.ranges ∧ ∀ id, matcher.lookup id = none
  ranges : ∀ first, reference.first = some first →
    matcher.ranges = reference.ranges.map (RangeMatcher.setFirstDsm first)
  firstDsmid : ∀ first, reference.first = some first → first ≠ 0 → matcher.firstDsmid = first
  lookup : ∀ id matched, matcher.lookup id = some matched →
    matched = matcher.ranges.any fun rm => decide (rm.Covers (getDSMId id) (getSpSId id))

variable {startTime endTime : ℤ} {matcher : SampleMatcher} {reference : Reference}

/-- The condition of a call.  A range with `.` is not added when the first sample had a DSM id of
zero.  `match_with_reassign` is not called for a sample whose id is known to be in no range while
all ranges are exclusions. -/
def allowed (matcher : SampleMatcher) (reference : Reference) : Call → Prop
  | .addCriteria rm => ¬ (rm.dsms.first = matchFirst ∧ reference.first = some 0)
  | .matchWithReassign samp _ =>
      inWindow matcher.startTime matcher.endTime samp.timeTag = true →
        ¬ (matcher.lookup samp.id = some false ∧ matcher.allExcludes = true)
  | _ => True

theorem Agrees.initial (startTime endTime : ℤ) :
    Agrees startTime endTime { startTime := startTime, endTime := endTime } {} :=
  ⟨rfl, rfl, rfl, fun _ => ⟨rfl, rfl, fun _ => rfl⟩, by simp, by simp, by simp⟩

/-- The range that is put into the list is the one that the reference has. -/
theorem Agrees.added (hagrees : Agrees startTime endTime matcher reference) {rm : RangeMatcher}
    (hallowed : ¬ (rm.dsms.first = matchFirst ∧ reference.first = some 0)) {first : ℕ}
    (hfirst : reference.first = some first) :
    (if matcher.firstDsmid ≠ 0 then rm.setFirstDsm matcher.firstDsmid else rm) =
      rm.setFirstDsm first := by
  by_cases hzero : first = 0
  · subst hzero
    have hresolved : rm.Resolved := fun hdot => hallowed ⟨hdot, hfirst⟩
    rw [hresolved.setFirstDsm, hresolved.setFirstDsm, ite_self]
  · rw [hagrees.firstDsmid first hfirst hzero, if_pos hzero]

theorem Agrees.addCriteria (hagrees : Agrees startTime endTime matcher reference)
    {rm : RangeMatcher} (hallowed : ¬ (rm.dsms.first = matchFirst ∧ reference.first = some 0)) :
    Agrees startTime endTime (matcher.addCriteria rm)
      { reference with ranges := reference.ranges ++ [rm] } := by
  have hranges : ∀ first, reference.first = some first →
      (matcher.addCriteria rm).ranges =
        (reference.ranges ++ [rm]).map (RangeMatcher.setFirstDsm first) := by
    intro first hfirst
    rw [List.map_append, ← hagrees.ranges first hfirst, List.map_singleton,
      ← hagrees.added hallowed hfirst]
    rfl
  have hfresh : reference.first = none →
      (matcher.addCriteria rm).ranges = reference.ranges ++ [rm] := by
    intro hnone
    obtain ⟨hzero, hsame, -⟩ := hagrees.fresh hnone
    simp [SampleMatcher.addCriteria, hzero, hsame]
  refine ⟨hagrees.startTime_eq, hagrees.endTime_eq, ?_, ?_, hranges, hagrees.firstDsmid, ?_⟩
  · change (matcher.addCriteria rm).ranges.all _ = _
    cases hfirst : reference.first with
    | none => rw [hfresh hfirst]
    | some first =>
        rw [hranges first hfirst, List.all_map]
        simp only [Function.comp_def, RangeMatcher.setFirstDsm_includes]
  · exact fun hnone => ⟨(hagrees.fresh hnone).1, hfresh hnone, fun _ => rfl⟩
  · intro id matched hmatched
    cases hmatched

theorem Agrees.resolved (hagrees : Agrees startTime endTime matcher reference) {first : ℕ}
    (hfirst : reference.first = some first) : ∀ rm ∈ matcher.ranges, rm.Resolved := by
  intro rm hrm
  rw [hagrees.ranges first hfirst] at hrm
  obtain ⟨raw, -, rfl⟩ := List.mem_map.mp hrm
  exact RangeMatcher.resolved_setFirstDsm first raw

/-- In ranges that are resolved there is nothing to resolve. -/
theorem resolveFirst_ranges (hresolved : ∀ rm ∈ matcher.ranges, rm.Resolved) (did : ℕ) :
    (matcher.resolveFirst did).ranges = matcher.ranges := by
  unfold resolveFirst
  split
  · calc matcher.ranges.map (RangeMatcher.setFirstDsm did)
        = matcher.ranges.map id :=
          List.map_congr_left fun rm hrm => (hresolved rm hrm).setFirstDsm did
      _ = matcher.ranges := List.map_id _
  · rfl

/-- After the first DSM id has been set, the matcher agrees with a reference that has examined the
sample. -/
theorem Agrees.resolveFirst (hagrees : Agrees startTime endTime matcher reference) (id : ℕ) :
    Agrees startTime endTime (matcher.resolveFirst (getDSMId id)) (reference.examined id) := by
  have hframe : (matcher.resolveFirst (getDSMId id)).startTime = matcher.startTime ∧
      (matcher.resolveFirst (getDSMId id)).endTime = matcher.endTime ∧
      (matcher.resolveFirst (getDSMId id)).allExcludes = matcher.allExcludes ∧
      (matcher.resolveFirst (getDSMId id)).lookup = matcher.lookup := by
    unfold SampleMatcher.resolveFirst
    split <;> exact ⟨rfl, rfl, rfl, rfl⟩
  obtain ⟨hstart, hend, hall, hlookup⟩ := hframe
  refine ⟨hstart.trans hagrees.startTime_eq, hend.trans hagrees.endTime_eq,
    hall.trans hagrees.allExcludes, ?_, ?_, ?_, ?_⟩
  · intro hnone
    cases hnone
  · rintro first ⟨rfl⟩
    cases hfirst : reference.first with
    | none =>
        obtain ⟨hzero, hsame, -⟩ := hagrees.fresh hfirst
        rw [SampleMatcher.resolveFirst, if_pos hzero, Reference.firstDsm, hfirst, hsame]
        rfl
    | some first =>
        rw [resolveFirst_ranges (hagrees.resolved hfirst), Reference.firstDsm, hfirst]
        exact hagrees.ranges first hfirst
  · rintro first ⟨rfl⟩ hne
    cases hfirst : reference.first with
    | none =>
        rw [SampleMatcher.resolveFirst, if_pos (hagrees.fresh hfirst).1, Reference.firstDsm, hfirst]
        rfl
    | some first =>
        rw [Reference.firstDsm, hfirst, Option.getD_some] at hne ⊢
        have hsame := hagrees.firstDsmid first hfirst hne
        rw [SampleMatcher.resolveFirst, if_neg (by rw [hsame]; exact hne)]
        exact hsame
  · intro other matched hmatched
    rw [hlookup] at hmatched
    cases hfirst : reference.first with
    | none =>
        rw [(hagrees.fresh hfirst).2.2 other] at hmatched
        cases hmatched
    | some first =>
        rw [resolveFirst_ranges (hagrees.resolved hfirst)]
        exact hagrees.lookup other matched hmatched

/-- An id that is known to be in no range is not decided by any. -/
theorem Agrees.deciding_eq_none (hagrees : Agrees startTime endTime matcher reference) {id : ℕ}
    (hhit : matcher.lookup id = some false) (tt : ℤ) (filename : List Char) :
    reference.deciding id tt filename = none := by
  cases hfirst : reference.first with
  | none =>
      rw [(hagrees.fresh hfirst).2.2 id] at hhit
      cases hhit
  | some first =>
      have hany := hagrees.lookup id false hhit
      rw [Reference.deciding, Reference.firstDsm, hfirst, Option.getD_some,
        ← hagrees.ranges first hfirst, List.find?_eq_none]
      intro rm hrm hmatch
      have hcovers : decide (rm.Covers (getDSMId id) (getSpSId id)) = true := by
        simp only [Bool.and_eq_true] at hmatch
        exact hmatch.1.1
      have htrue : (matcher.ranges.any fun rm =>
          decide (rm.Covers (getDSMId id) (getSpSId id))) = true :=
        List.any_eq_true.mpr ⟨rm, hrm, hcovers⟩
      rw [← hany] at htrue
      cases htrue

/-- One call of `match_range`: the decision is that of the reference, and so is the deciding range
if the pointer is set. -/
theorem Agrees.matchRange (hagrees : Agrees startTime endTime matcher reference) (id : ℕ) (tt : ℤ)
    (filename : List Char) :
    Agrees startTime endTime (matcher.matchRange id tt filename).1 (reference.examined id) ∧
      (matcher.matchRange id tt filename).2.1 = reference.decision id tt filename ∧
      ((matcher.matchRange id tt filename).2.2 = .set (reference.deciding id tt filename) ∨
        matcher.lookup id = some false) := by
  unfold SampleMatcher.matchRange
  dsimp only
  split
  · next hhit =>
      have hnone := hagrees.deciding_eq_none hhit tt filename
      refine ⟨?_, ?_, .inr hhit⟩
      · have hsame : reference.examined id = reference := by
          cases hfirst : reference.first with
          | none =>
              rw [(hagrees.fresh hfirst).2.2 id] at hhit
              cases hhit
          | some first =>
              rw [Reference.examined, Reference.firstDsm, hfirst, Option.getD_some, ← hfirst]
        rw [hsame]
        exact ⟨hagrees.startTime_eq, hagrees.endTime_eq, hagrees.allExcludes, hagrees.fresh,
          hagrees.ranges, hagrees.firstDsmid, hagrees.lookup⟩
      · rw [Reference.decision, hnone]
        exact hagrees.allExcludes
  · next hmiss =>
      have hcounted : Agrees startTime endTime
          { matcher with nsamples := matcher.nsamples + 1 } reference :=
        ⟨hagrees.startTime_eq, hagrees.endTime_eq, hagrees.allExcludes, hagrees.fresh,
          hagrees.ranges, hagrees.firstDsmid, hagrees.lookup⟩
      have hset := hcounted.resolveFirst id
      rw [search_eq (hset.resolved rfl)]
      have hfound : (SampleMatcher.resolveFirst
          { matcher with nsamples := matcher.nsamples + 1 } (getDSMId id)).ranges.find?
            (fun rm => decide (rm.Covers (getDSMId id) (getSpSId id)) && rm.matchTime tt &&
              rm.matchFile filename) = reference.deciding id tt filename := by
        rw [hset.ranges _ rfl]
        rfl
      dsimp only
      rw [hfound]
      refine ⟨?_, ?_, .inl rfl⟩
      · refine ⟨hset.startTime_eq, hset.endTime_eq, hset.allExcludes, by simp [Reference.examined],
          hset.ranges, hset.firstDsmid, ?_⟩
        intro other matched hmatched
        dsimp only at hmatched ⊢
        by_cases hsame : other = id
        · subst hsame
          rw [Function.update_self] at hmatched
          exact (Option.some.inj hmatched).symm
        · rw [Function.update_of_ne hsame] at hmatched
          exact hset.lookup other matched hmatched
      · rw [hset.allExcludes, Reference.decision]
        cases reference.deciding id tt filename with
        | none => simp [Reference.examined]
        | some rm => simp

/-! ## Every history -/

theorem Agrees.matchWithReassign (hagrees : Agrees startTime endTime matcher reference)
    (samp : Sample) (inputname : List Char)
    (hallowed : inWindow startTime endTime samp.timeTag = true →
      ¬ (matcher.lookup samp.id = some false ∧ matcher.allExcludes = true)) :
    Agrees startTime endTime (matcher.matchWithReassign samp inputname).1
        (reference.respond startTime endTime (.matchWithReassign samp inputname)).1 ∧
      (matcher.matchWithReassign samp inputname).2 =
        (reference.respond startTime endTime (.matchWithReassign samp inputname)).2 := by
  unfold SampleMatcher.matchWithReassign Reference.respond
  dsimp only
  rw [hagrees.startTime_eq, hagrees.endTime_eq]
  split
  · next hwindow =>
      have hrange := hagrees.matchRange samp.id samp.timeTag inputname
      rcases hcall : matcher.matchRange samp.id samp.timeTag inputname with ⟨next, result, pointer⟩
      rw [hcall] at hrange
      obtain ⟨hnext, hresult, hpointer⟩ := hrange
      dsimp only at hnext hresult hpointer
      rw [← hresult]
      cases result with
      | false => exact ⟨hnext, rfl⟩
      | true =>
          have hset : pointer = .set (reference.deciding samp.id samp.timeTag inputname) := by
            rcases hpointer with hset | hhit
            · exact hset
            · -- a hit that is included is one of an id in no range, with exclusions only
              have hnone := hagrees.deciding_eq_none hhit samp.timeTag inputname
              rw [Reference.decision, hnone, ← hagrees.allExcludes] at hresult
              exact absurd ⟨hhit, hresult.symm⟩ (hallowed hwindow)
          rw [hset]
          cases reference.deciding samp.id samp.timeTag inputname with
          | none => exact ⟨hnext, rfl⟩
          | some rm => exact ⟨hnext, rfl⟩
  · exact ⟨hagrees, rfl⟩

theorem Agrees.matchSample (hagrees : Agrees startTime endTime matcher reference)
    (samp : Sample) (inputname : List Char) :
    Agrees startTime endTime (matcher.matchSample samp inputname).1
        (reference.respond startTime endTime (.matchSample samp inputname)).1 ∧
      (matcher.matchSample samp inputname).2 =
        (reference.respond startTime endTime (.matchSample samp inputname)).2 := by
  unfold SampleMatcher.matchSample Reference.respond
  dsimp only
  rw [hagrees.startTime_eq, hagrees.endTime_eq]
  split
  · obtain ⟨hnext, hresult, -⟩ := hagrees.matchRange samp.id samp.timeTag inputname
    exact ⟨hnext, by rw [hresult]⟩
  · exact ⟨hagrees, rfl⟩

/-- One call keeps the agreement, with the answer of the reference. -/
theorem Agrees.respond (hagrees : Agrees startTime endTime matcher reference) (call : Call)
    (hallowed : matcher.allowed reference call) :
    Agrees startTime endTime (matcher.respond call).1
        (reference.respond startTime endTime call).1 ∧
      (matcher.respond call).2 = (reference.respond startTime endTime call).2 := by
  cases call with
  | addCriteria rm => exact ⟨hagrees.addCriteria hallowed, rfl⟩
  | matchId id tt filename =>
      obtain ⟨hnext, hresult, -⟩ := hagrees.matchRange id tt filename
      refine ⟨hnext, ?_⟩
      rw [SampleMatcher.respond, Reference.respond]
      dsimp only
      rw [hresult]
  | matchSample samp inputname => exact hagrees.matchSample samp inputname
  | matchWithReassign samp inputname =>
      rw [allowed, hagrees.startTime_eq, hagrees.endTime_eq] at hallowed
      exact hagrees.matchWithReassign samp inputname hallowed

/-- The first sample has a DSM id of zero, and a range with `.` is added after it. -/
example :
    answers SampleMatcher.respond {}
        [.matchSample ⟨5, .char, 3, []⟩ [],
          .addCriteria { dsms := ⟨matchFirst, matchFirst⟩, includes := true },
          .matchSample ⟨5, .char, 2 ^ 16 + 3, []⟩ []] ≠
      answers (Reference.respond longLongMin longLongMax) {}
        [.matchSample ⟨5, .char, 3, []⟩ [],
          .addCriteria { dsms := ⟨matchFirst, matchFirst⟩, includes := true },
          .matchSample ⟨5, .char, 2 ^ 16 + 3, []⟩ []] := by
  decide

end SampleMatcher

end Nidas.Core
