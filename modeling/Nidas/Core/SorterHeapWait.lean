import Nidas.Core.SorterSteps

/-!
# Waiting for the heap

With `heapBlock` on, `receive` waits on `_heapCond` when the heap limit is exceeded, and relies on the
loop to signal it.  The comment in `receive` says that setting and checking `_heapExceeded` with
`_heapCond` locked avoids a deadlock.  It does not: the loop waits without a look at `_heapExceeded`
when the set is not larger than the late sample cache, one signal clears `_heapExceeded` for all that
wait, and the signal of `receive` to the loop is lost between the check of the loop and its wait.
In a run that keeps clear of these three, somebody is always awake.
-/

namespace Nidas.Core.SampleSorter

open Lib

variable {config : SorterConfig} {sorter next : SampleSorter} {action : SorterAction}

/-- How many threads wait on `_heapCond` and have not been woken. -/
def waitersIn (calls : List Call) : ℕ := calls.countP Call.onHeapCond

/-- The same for the calls in progress. -/
def heapWaiters (sorter : SampleSorter) : ℕ := waitersIn sorter.calls

/-- There are calls of `receive` in progress, all of them wait on `_heapCond`, the loop waits on
`_sampleSetCond`, and nobody has been woken. -/
def Deadlocked (sorter : SampleSorter) : Prop :=
  sorter.calls ≠ [] ∧ (∀ call ∈ sorter.calls, call.onHeapCond = true) ∧ sorter.point = .waiting

instance (sorter : SampleSorter) : Decidable (Deadlocked sorter) :=
  inferInstanceAs (Decidable (_ ∧ _ ∧ _))

/-! ## The three conditions -/

/-- Neither `flush` nor `interrupt` is called. -/
def onlyReceive (_ : SampleSorter) (action : SorterAction) : Bool :=
  decide (action ≠ .flush ∧ action ≠ .interrupt)

/-- The loop does not find the set no larger than the late sample cache while a thread waits. -/
def enoughSamples (config : SorterConfig) (sorter : SampleSorter) (action : SorterAction) : Bool :=
  match action, sorter.point with
  | .run _, .loop =>
      decide (config.lateSampleCacheSize < sorter.samples.length ∨ sorter.heapWaiters = 0)
  | _, _ => true

/-- `_heapExceeded` is cleared only when no thread is left waiting. -/
def clearedForAll (sorter : SampleSorter) (action : SorterAction) : Bool :=
  match action with
  | .run _ =>
      match sorter.point with
      | .heapCheck => decide (sorter.heapExceeded = true → sorter.heapWaiters ≤ 1)
      | .distributing [] ssum =>
          decide (sorter.heapExceeded = true →
            sizeSub sorter.heapSize ssum < sorter.heapMax / 2 → sorter.heapWaiters ≤ 1)
      | _ => true
  | .call place _ =>
      match sorter.calls[place]? with
      | some (.receive s) =>
          decide (sorter.heapSize + s.length ≤ sorter.heapMax → sorter.heapWaiters = 0)
      | some (.heapWait _ true) =>
          decide (sorter.heapSize ≤ sorter.heapMax → sorter.heapWaiters = 0)
      | _ => true
  | _ => true

/-- No thread signals the loop between its check and its wait. -/
def signalHeard (sorter : SampleSorter) (action : SorterAction) : Bool :=
  match action with
  | .call place _ =>
      match sorter.calls[place]? with
      | some (.receive s) =>
          decide (sorter.heapMax < sorter.heapSize + s.length → sorter.point ≠ .toWait)
      | some (.heapWait _ true) =>
          decide (sorter.heapMax < sorter.heapSize → sorter.point ≠ .toWait)
      | _ => true
  | _ => true

/-- A step of `receive` or of the loop that meets the three conditions. -/
def careful (config : SorterConfig) (sorter : SampleSorter) (action : SorterAction) : Bool :=
  onlyReceive sorter action && enoughSamples config sorter action &&
    clearedForAll sorter action && signalHeard sorter action

/-! ## Runs of `receive` and the loop -/

/-- A call of `receive`. -/
def inReceive : Call → Bool
  | .receive _ | .heapWait _ _ | .insert _ => true
  | _ => false

/-- Only `receive` has been called, so the loop does not flush. -/
structure Receiving (sorter : SampleSorter) : Prop where
  doFlush : sorter.doFlush = false
  calls : sorter.calls.all inReceive = true
  point : sorter.point ≠ .broadcast ∧ sorter.point ≠ .clearFlush

theorem inReceive_wake (call : Call) : inReceive call.wake = inReceive call := by
  cases call <;> rfl

theorem signalled_ne {point other : RunPoint} (hother : other ≠ .loop) (h : point ≠ other) :
    point.signalled ≠ other := by
  cases point with
  | waiting => exact hother.symm
  | _ => exact h

theorem signalled_ne_waiting (point : RunPoint) : point.signalled ≠ .waiting := by
  cases point <;> exact RunPoint.noConfusion

theorem Receiving.calls_move (h : Receiving sorter) (hmove : Move config sorter action next)
    (honly : onlyReceive sorter action = true) : next.calls.all inReceive = true := by
  have hcalls := h.calls
  have hsignalled {waits : Call → Bool} {choice : ℕ} {after : List Call}
      (hsignal : signal waits Call.wake choice sorter.calls = some after) :
      after.all inReceive = true := by
    rw [all_of_map_eq (map_of_signal (fun call _ => inReceive_wake call) hsignal), hcalls]
  cases hmove with
  | flush => exact absurd rfl (of_decide_eq_true honly).1
  | interrupt => exact absurd rfl (of_decide_eq_true honly).2
  | flushLeave hsplit hcall | flushWait hsplit hcall =>
      rcases hcall with rfl | rfl <;> simp [hsplit, inReceive] at hcalls
  | interruptFlush hsignal | interruptHeap hsignal =>
      simpa [inReceive] using hsignalled hsignal
  | heapSignal _ _ hsignal => exact hsignalled hsignal
  | decrementSignal _ _ _ hsignal => exact hsignalled hsignal
  | broadcast hpoint => exact absurd hpoint h.point.1
  | ending =>
      rw [all_of_map_eq (map_broadcast (fun call _ => inReceive_wake call) sorter.calls), hcalls]
  | _ => simp_all [inReceive]

theorem Receiving.move (h : Receiving sorter) (hmove : Move config sorter action next)
    (honly : onlyReceive sorter action = true) : Receiving next := by
  have hdoFlush := h.doFlush
  have hcalls := h.calls
  have hpoint := h.point
  refine ⟨?_, h.calls_move hmove honly, ?_⟩
  · cases hmove with
    | flushBegin hsplit => simp [hsplit, inReceive] at hcalls
    | clearFlush => rfl
    | _ => exact hdoFlush
  · cases hmove with
    | block | blockAgain | insert | flushBegin | interruptSet =>
        exact ⟨signalled_ne (by decide) hpoint.1, signalled_ne (by decide) hpoint.2⟩
    | loopEmpty => simp [hdoFlush]
    | broadcast hbroadcast => exact absurd hbroadcast hpoint.1
    | _ => simp_all

/-! ## Runs that meet the conditions -/

@[simp] theorem waitersIn_append (front back : List Call) :
    waitersIn (front ++ back) = waitersIn front + waitersIn back := List.countP_append

@[simp] theorem waitersIn_cons (call : Call) (calls : List Call) :
    waitersIn (call :: calls) = (if call.onHeapCond then 1 else 0) + waitersIn calls := by
  rw [waitersIn, List.countP_cons, Nat.add_comm]
  rfl

@[simp] theorem waitersIn_nil : waitersIn [] = 0 := rfl

theorem onHeapCond_wake (call : Call) : call.wake.onHeapCond = false := by
  cases call <;> rfl

/-- A signal on `_heapCond` reaches the only thread that waits. -/
theorem waitersIn_of_heapSignal {choice : ℕ} {calls after : List Call}
    (h : signal Call.onHeapCond Call.wake choice calls = some after) :
    waitersIn after = waitersIn calls - 1 :=
  countP_of_signal onHeapCond_wake h

/-- While a thread waits, `_heapExceeded` is set and the loop neither waits nor is about to. -/
def HeapHeard (sorter : SampleSorter) : Prop :=
  0 < waitersIn sorter.calls →
    sorter.heapExceeded = true ∧ sorter.point ≠ .toWait ∧ sorter.point ≠ .waiting

/-- A broadcast on `_flushCond` reaches nobody who waits on `_heapCond`. -/
theorem waitersIn_flushBroadcast (calls : List Call) :
    waitersIn (Lib.broadcast Call.onFlushCond Call.wake calls) = waitersIn calls := by
  apply countP_of_map_eq (map_broadcast _ calls)
  intro call hwaits
  cases call with
  | flushWait => rfl
  | _ => cases hwaits

section Conditions

variable {place choice ssum : ℕ} {s : SamplePtr}

theorem clearedForAll_pass (h : clearedForAll sorter (.call place choice) = true)
    (hplace : sorter.calls[place]? = some (.receive s))
    (hmax : sorter.heapSize + s.length ≤ sorter.heapMax) : waitersIn sorter.calls = 0 := by
  unfold clearedForAll at h
  dsimp only at h
  rw [hplace] at h
  exact of_decide_eq_true h hmax

theorem clearedForAll_resume (h : clearedForAll sorter (.call place choice) = true)
    (hplace : sorter.calls[place]? = some (.heapWait s true))
    (hmax : sorter.heapSize ≤ sorter.heapMax) : waitersIn sorter.calls = 0 := by
  unfold clearedForAll at h
  dsimp only at h
  rw [hplace] at h
  exact of_decide_eq_true h hmax

theorem clearedForAll_heapSignal (h : clearedForAll sorter (.run choice) = true)
    (hpoint : sorter.point = .heapCheck) (hexceeded : sorter.heapExceeded = true) :
    waitersIn sorter.calls ≤ 1 := by
  unfold clearedForAll at h
  dsimp only at h
  rw [hpoint] at h
  exact of_decide_eq_true h hexceeded

theorem clearedForAll_decrement (h : clearedForAll sorter (.run choice) = true)
    (hpoint : sorter.point = .distributing [] ssum) (hexceeded : sorter.heapExceeded = true)
    (hhalf : sizeSub sorter.heapSize ssum < sorter.heapMax / 2) : waitersIn sorter.calls ≤ 1 := by
  unfold clearedForAll at h
  dsimp only at h
  rw [hpoint] at h
  exact of_decide_eq_true h hexceeded hhalf

theorem signalHeard_block (h : signalHeard sorter (.call place choice) = true)
    (hplace : sorter.calls[place]? = some (.receive s))
    (hmax : sorter.heapMax < sorter.heapSize + s.length) : sorter.point ≠ .toWait := by
  unfold signalHeard at h
  dsimp only at h
  rw [hplace] at h
  exact of_decide_eq_true h hmax

theorem signalHeard_blockAgain (h : signalHeard sorter (.call place choice) = true)
    (hplace : sorter.calls[place]? = some (.heapWait s true))
    (hmax : sorter.heapMax < sorter.heapSize) : sorter.point ≠ .toWait := by
  unfold signalHeard at h
  dsimp only at h
  rw [hplace] at h
  exact of_decide_eq_true h hmax

theorem enoughSamples_few (h : enoughSamples config sorter (.run choice) = true)
    (hpoint : sorter.point = .loop)
    (hfew : sorter.samples.length ≤ config.lateSampleCacheSize) : waitersIn sorter.calls = 0 := by
  unfold enoughSamples at h
  rw [hpoint] at h
  exact (of_decide_eq_true h).resolve_left (Nat.not_lt.mpr hfew)

end Conditions

/-- **A step that meets the conditions leaves somebody awake.** -/
theorem HeapHeard.move (h : HeapHeard sorter) (hreceiving : Receiving sorter)
    (hmove : Move config sorter action next) (hcareful : careful config sorter action = true) :
    HeapHeard next := by
  have hcalls := hreceiving.calls
  simp only [careful, Bool.and_eq_true] at hcareful
  obtain ⟨⟨⟨-, henough⟩, hcleared⟩, hsignalHeard⟩ := hcareful
  unfold HeapHeard at h ⊢
  intro hwaiters
  cases hmove with
  | pass hplace hsplit hmax =>
      -- `_heapExceeded` is cleared, and nobody waits
      have hnone := clearedForAll_pass hcleared hplace hmax
      simp [hsplit, Call.onHeapCond] at hnone hwaiters
      omega
  | resume hplace hsplit hmax =>
      have hnone := clearedForAll_resume hcleared hplace hmax
      simp [hsplit, Call.onHeapCond] at hnone hwaiters
      omega
  | block hplace _ _ hmax =>
      -- the loop is woken if it waits
      have hpoint := signalHeard_block hsignalHeard hplace hmax
      exact ⟨rfl, signalled_ne (by decide) hpoint, signalled_ne_waiting _⟩
  | blockAgain hplace _ hmax =>
      have hpoint := signalHeard_blockAgain hsignalHeard hplace hmax
      exact ⟨rfl, signalled_ne (by decide) hpoint, signalled_ne_waiting _⟩
  | insert _ hsplit =>
      obtain ⟨hexceeded, htoWait, -⟩ := h (by simpa [hsplit, Call.onHeapCond] using hwaiters)
      exact ⟨hexceeded, signalled_ne (by decide) htoWait, signalled_ne_waiting _⟩
  | flushBegin hsplit | interruptSet hsplit => simp [hsplit, inReceive] at hcalls
  | flushLeave hsplit hcall | flushWait hsplit hcall =>
      rcases hcall with rfl | rfl <;> simp [hsplit, inReceive] at hcalls
  | interruptFlush hsignal | interruptHeap hsignal =>
      rw [← all_of_map_eq (map_of_signal (fun call _ => inReceive_wake call) hsignal)] at hcalls
      simp [inReceive] at hcalls
  | loopEmpty hpoint hempty =>
      have hnone := enoughSamples_few henough hpoint (by simp [hempty])
      exact absurd hnone hwaiters.ne'
  | loopFew hpoint hfew => exact absurd (enoughSamples_few henough hpoint hfew) hwaiters.ne'
  | heapSignal hpoint hexceeded hsignal =>
      have hone := clearedForAll_heapSignal hcleared hpoint hexceeded
      have hleft := waitersIn_of_heapSignal hsignal
      dsimp only at hwaiters
      omega
  | heapCheck _ hexceeded =>
      have hset := (h hwaiters).1
      rw [hexceeded] at hset
      cases hset
  | wait hpoint => exact absurd hpoint (h hwaiters).2.1
  | decrementSignal hpoint hexceeded hhalf hsignal =>
      have hone := clearedForAll_decrement hcleared hpoint hexceeded hhalf
      have hleft := waitersIn_of_heapSignal hsignal
      dsimp only at hwaiters
      omega
  | broadcast hpoint => exact absurd hpoint hreceiving.point.1
  | clearFlush hpoint => exact absurd hpoint hreceiving.point.2
  | ending =>
      rw [waitersIn_flushBroadcast] at hwaiters
      exact ⟨(h hwaiters).1, by simp, by simp⟩
  | _ => simp_all [Call.onHeapCond]

/-- The invariant of such a run. -/
structure Awake (sorter : SampleSorter) : Prop where
  receiving : Receiving sorter
  heard : HeapHeard sorter

theorem awake_started (heapMax : ℕ) : Awake (started heapMax) :=
  ⟨⟨rfl, rfl, RunPoint.noConfusion, RunPoint.noConfusion⟩,
    fun hwaiters => absurd hwaiters (Nat.lt_irrefl 0)⟩

theorem Awake.not_deadlocked (h : Awake sorter) : ¬ Deadlocked sorter := by
  rintro ⟨hne, hall, hwaiting⟩
  obtain ⟨call, hcall⟩ := List.exists_mem_of_ne_nil _ hne
  have hwaiters : 0 < waitersIn sorter.calls :=
    List.countP_pos_iff.mpr ⟨call, hcall, hall call hcall⟩
  exact (h.heard hwaiters).2.2 hwaiting

/-- **The sorter does not deadlock in a run whose steps meet the conditions.** -/
theorem not_deadlocked_of_careful {heapMax : ℕ}
    (h : Reaches (restrict (careful config) (step config)) (started heapMax) sorter) :
    ¬ Deadlocked sorter := by
  apply Awake.not_deadlocked
  apply h.invariant (awake_started heapMax)
  intro before action after hbefore hstep
  obtain ⟨hcareful, hstep⟩ := restrict_eq_some.mp hstep
  have honly : onlyReceive before action = true := by
    simp only [careful, Bool.and_eq_true] at hcareful
    exact hcareful.1.1.1
  have hmove := step_move hstep
  exact ⟨hbefore.receiving.move hmove honly, hbefore.heard.move hbefore.receiving hmove hcareful⟩

/-- A heap for two samples; a third one waits until the loop extends the limit. -/
def extendRun : List SorterAction :=
  [.receive (oneByte 0 1) 0, .call 0 0, .call 0 0, .receive (oneByte 1 2) 0, .call 0 0, .call 0 0,
    .receive (oneByte 2 3) 0, .call 0 0, .run 0, .run 0, .run 0, .call 0 0]

theorem not_deadlocked_of_careful_extendRun :
    ∃ sorter, runSteps (restrict (careful { heapBlock := true }) (step { heapBlock := true }))
        (started 34) extendRun = some sorter ∧
      sorter.heapMax = 51 ∧ sorter.calls = [.insert (oneByte 2 3)] ∧ ¬ Deadlocked sorter := by
  have hrun : runSteps (restrict (careful { heapBlock := true }) (step { heapBlock := true }))
      (started 34) extendRun = some
        { (started 51) with
          samples := [oneByte 0 1, oneByte 1 2], heapSize := 51, flushed := false,
          calls := [.insert (oneByte 2 3)], point := .waiting,
          received := [oneByte 0 1, oneByte 1 2] } := by
    decide +kernel
  exact ⟨_, hrun, rfl, rfl, not_deadlocked_of_careful ⟨extendRun, hrun⟩⟩

/-! ## Deadlocks

Each of the three conditions is needed: there are runs that meet the two others and come to a
deadlock. -/

theorem exists_deadlocked_of_run {allowed : SampleSorter → SorterAction → Bool} {heapMax : ℕ}
    (actions : List SorterAction)
    (hrun : ((runSteps (restrict allowed (step config)) (started heapMax) actions).any
      fun sorter => decide (Deadlocked sorter)) = true) :
    ∃ sorter, Reaches (restrict allowed (step config)) (started heapMax) sorter ∧
      Deadlocked sorter := by
  obtain ⟨sorter, hreaches, hcheck⟩ := exists_reaches_of_any hrun
  exact ⟨sorter, hreaches, of_decide_eq_true hcheck⟩

/-- The loop has extended the limit and goes to wait.  The thread that it woke needs more, and its
signal to the loop is lost. -/
def lostSignalRun : List SorterAction :=
  [.receive (oneByte 0 1) 0, .call 0 0, .call 0 0, .receive (oneByte 1 2) 0, .call 0 0,
    .run 0, .run 0, .call 0 0, .run 0]

/-- Every sample is smaller than the heap limit, and the sorter is deadlocked. -/
theorem deadlocked_lostSignalRun :
    ∃ sorter, Reaches (restrict onlyReceive (step { heapBlock := true })) (started 20) sorter ∧
      Deadlocked sorter :=
  exists_deadlocked_of_run lostSignalRun (by decide +kernel)

/-- The first sample is larger than the heap limit, and the loop finds an empty set. -/
def firstSampleRun : List SorterAction :=
  [.receive (oneByte 0 1) 0, .call 0 0, .run 0, .run 0]

/-- The loop extends the limit until the first of two threads that wait goes on, and forgets the
other one. -/
def forgottenRun : List SorterAction :=
  [.receive (oneByte 0 1) 0, .call 0 0, .call 0 0, .receive (oneByte 1 2) 0, .call 0 0,
    .receive (oneByte 2 3) 0, .call 1 0, .run 0, .run 0, .run 0, .call 0 0, .run 0, .run 0, .run 0,
    .call 0 0, .run 0, .run 0, .run 0, .call 0 0, .call 0 0, .run 0, .run 0, .run 0]

/-- None of the conditions can be left out. -/
theorem deadlocked_without_condition :
    (∃ sorter, Reaches (restrict (fun sorter action => onlyReceive sorter action &&
        clearedForAll sorter action && signalHeard sorter action) (step { heapBlock := true }))
        (started 10) sorter ∧ Deadlocked sorter) ∧
      (∃ sorter, Reaches (restrict (fun sorter action => onlyReceive sorter action &&
        enoughSamples { heapBlock := true } sorter action && signalHeard sorter action)
        (step { heapBlock := true })) (started 20) sorter ∧ Deadlocked sorter) ∧
      ∃ sorter, Reaches (restrict (fun sorter action => onlyReceive sorter action &&
        enoughSamples { heapBlock := true } sorter action && clearedForAll sorter action)
        (step { heapBlock := true })) (started 20) sorter ∧ Deadlocked sorter :=
  ⟨exists_deadlocked_of_run firstSampleRun (by decide +kernel),
    exists_deadlocked_of_run forgottenRun (by decide +kernel),
    exists_deadlocked_of_run lostSignalRun (by decide +kernel)⟩

end Nidas.Core.SampleSorter
