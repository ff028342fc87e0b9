import Nidas.Core.SorterSteps

/-!
# Waiting for a flush

`flush` sets `_doFlush` and waits on `_flushCond` until `_flushed` is set.  The loop drains the set,
sets `_flushed`, broadcasts and clears `_doFlush`.  A call of `receive` that clears `_flushed`
before the thread of `flush` has looked at it makes that thread wait for a broadcast that does not come.
Where no sample is inserted between the clearing of `_doFlush` and the return of `flush`, nobody who
waits is forgotten.
-/

namespace Nidas.Core.SampleSorter

open Lib

variable {config : SorterConfig} {sorter next : SampleSorter} {action : SorterAction}

/-- A thread that waits on `_flushCond` can rely on the loop: `_doFlush` is set, or the thread has
been woken and will find `_flushed` set. -/
def FlushHeard (sorter : SampleSorter) : Prop :=
  sorter.interrupted = false → ∀ woken, .flushWait woken ∈ sorter.calls →
    sorter.doFlush = true ∨ (woken = true ∧ sorter.flushed = true)

/-- A call of `flush` that has set `_doFlush` and has not returned. -/
def inFlush : Call → Bool
  | .flushTest | .flushWait _ => true
  | _ => false

/-- A thread waits on `_flushCond` and has not been woken. -/
def someWait (calls : List Call) : Bool := calls.any Call.onFlushCond

/-- A thread is in `flush`. -/
def someFlush (calls : List Call) : Bool := calls.any inFlush

/-- A sample is inserted only when `_doFlush` is set or no thread is in `flush`. -/
def insertsApart (sorter : SampleSorter) (action : SorterAction) : Bool :=
  match action with
  | .call place _ =>
      match sorter.calls[place]? with
      | some (.insert _) => decide (sorter.doFlush = true ∨ someFlush sorter.calls = false)
      | _ => true
  | _ => true

/-! ## Runs that insert apart -/

/-- Who waits can rely on `_doFlush`, and who is about to look at `_flushed` can rely on one of the
two.  Between the setting of `_flushed` and the clearing of `_doFlush` the first is set. -/
structure FlushKept (sorter : SampleSorter) : Prop where
  waiting : someWait sorter.calls = true → sorter.doFlush = true
  flushing : someFlush sorter.calls = true → sorter.doFlush = true ∨ sorter.flushed = true
  flushed : sorter.point = .broadcast ∨ sorter.point = .clearFlush → sorter.flushed = true
  woken : sorter.point = .clearFlush → someWait sorter.calls = false

@[simp] theorem someWait_append (front back : List Call) :
    someWait (front ++ back) = (someWait front || someWait back) := List.any_append

@[simp] theorem someWait_cons (call : Call) (calls : List Call) :
    someWait (call :: calls) = (call.onFlushCond || someWait calls) := List.any_cons

@[simp] theorem someWait_nil : someWait [] = false := rfl

@[simp] theorem someFlush_append (front back : List Call) :
    someFlush (front ++ back) = (someFlush front || someFlush back) := List.any_append

@[simp] theorem someFlush_cons (call : Call) (calls : List Call) :
    someFlush (call :: calls) = (inFlush call || someFlush calls) := List.any_cons

@[simp] theorem someFlush_nil : someFlush [] = false := rfl

theorem inFlush_wake (call : Call) : inFlush call.wake = inFlush call := by
  cases call <;> rfl

theorem onFlushCond_wake (call : Call) : call.wake.onFlushCond = false := by
  cases call <;> rfl

/-- A signal on `_heapCond` wakes nobody in `flush`. -/
theorem onFlushCond_wake_of_onHeapCond (call : Call) (h : call.onHeapCond = true) :
    call.wake.onFlushCond = call.onFlushCond := by
  cases call with
  | flushWait => cases h
  | _ => rfl

theorem insertsApart_insert {place choice : ℕ} {s : SamplePtr}
    (h : insertsApart sorter (.call place choice) = true)
    (hplace : sorter.calls[place]? = some (.insert s)) :
    sorter.doFlush = true ∨ someFlush sorter.calls = false := by
  unfold insertsApart at h
  dsimp only at h
  rw [hplace] at h
  exact of_decide_eq_true h

/-- The loop is not between the setting of `_flushed` and its wait. -/
theorem ne_of_not_locked {point : RunPoint} (h : point.locked = false) :
    point.signalled ≠ .broadcast ∧ point.signalled ≠ .clearFlush := by
  cases point <;> first | exact ⟨RunPoint.noConfusion, RunPoint.noConfusion⟩ | cases h

theorem signalled_eq_broadcast {point : RunPoint} :
    point.signalled = .broadcast ↔ point = .broadcast := by
  cases point <;> simp [RunPoint.signalled]

theorem signalled_eq_clearFlush {point : RunPoint} :
    point.signalled = .clearFlush ↔ point = .clearFlush := by
  cases point <;> simp [RunPoint.signalled]

section Signals

variable {calls after : List Call} {choice : ℕ}

theorem someFlush_of_signal {waits : Call → Bool}
    (h : signal waits Call.wake choice calls = some after) : someFlush after = someFlush calls :=
  any_of_map_eq (map_of_signal (fun call _ => inFlush_wake call) h)

theorem someFlush_broadcast {waits : Call → Bool} (calls : List Call) :
    someFlush (Lib.broadcast waits Call.wake calls) = someFlush calls :=
  any_of_map_eq (map_broadcast (fun call _ => inFlush_wake call) calls)

theorem someWait_of_heapSignal (h : signal Call.onHeapCond Call.wake choice calls = some after) :
    someWait after = someWait calls :=
  any_of_map_eq (map_of_signal onFlushCond_wake_of_onHeapCond h)

theorem someWait_of_flushSignal (h : signal Call.onFlushCond Call.wake choice calls = some after)
    (hafter : someWait after = true) : someWait calls = true :=
  any_waits_of_signal onFlushCond_wake h hafter

theorem someWait_broadcast (calls : List Call) :
    someWait (Lib.broadcast Call.onFlushCond Call.wake calls) = false :=
  any_waits_broadcast onFlushCond_wake calls

end Signals

/-- A step that leaves the flags and the loop alone, and in which nobody begins to wait or to
flush. -/
theorem FlushKept.of_calls (h : FlushKept sorter) (hdoFlush : next.doFlush = sorter.doFlush)
    (hflushed : next.flushed = sorter.flushed) (hpoint : next.point = sorter.point)
    (hwait : someWait next.calls = true → someWait sorter.calls = true)
    (hflush : someFlush next.calls = true → someFlush sorter.calls = true) : FlushKept next := by
  refine ⟨?_, ?_, ?_, ?_⟩
  · intro hsome
    rw [hdoFlush]
    exact h.waiting (hwait hsome)
  · intro hsome
    rw [hdoFlush, hflushed]
    exact h.flushing (hflush hsome)
  · rw [hpoint, hflushed]
    exact h.flushed
  · intro hclear
    rw [hpoint] at hclear
    by_contra hsome
    have hbefore := hwait (Bool.not_eq_false _ ▸ hsome)
    rw [h.woken hclear] at hbefore
    cases hbefore

theorem FlushKept.move (h : FlushKept sorter) (hmove : Move config sorter action next)
    (hapart : insertsApart sorter action = true) : FlushKept next := by
  have hwaiting := h.waiting
  have hflushing := h.flushing
  have hflushed := h.flushed
  have hwoken := h.woken
  cases hmove with
  | insert hplace hsplit hlocked =>
      -- `_flushed` is cleared, and who is in `flush` can rely on `_doFlush`
      have hdoFlush := insertsApart_insert hapart hplace
      obtain ⟨hbroadcast, hclear⟩ := ne_of_not_locked hlocked
      rw [hsplit] at hwaiting hdoFlush
      refine ⟨by simpa [Call.onFlushCond] using hwaiting, ?_,
        fun hpoint => absurd hpoint (by simp [hbroadcast, hclear]),
        fun hpoint => absurd hpoint hclear⟩
      intro hsome
      rcases hdoFlush with hset | hnone
      · exact .inl hset
      · simp [inFlush] at hnone hsome
        simp [hnone] at hsome
  | flushBegin hsplit hlocked =>
      obtain ⟨hbroadcast, hclear⟩ := ne_of_not_locked hlocked
      exact ⟨fun _ => rfl, fun _ => .inl rfl,
        fun hpoint => absurd hpoint (by simp [hbroadcast, hclear]),
        fun hpoint => absurd hpoint hclear⟩
  | @flushWait _ _ _ _ call hsplit hcall hnot =>
      -- the thread has seen that `_flushed` is not set, so `_doFlush` is
      have hcallFlush : inFlush call = true := by rcases hcall with rfl | rfl <;> rfl
      have hdoFlush : sorter.doFlush = true := by
        have hsome := hflushing (by simp [hsplit, hcallFlush])
        simpa [hnot] using hsome
      exact ⟨fun _ => hdoFlush, fun _ => .inl hdoFlush, hflushed, fun hpoint => by
        have hset := hflushed (.inr hpoint)
        rw [hnot] at hset
        cases hset⟩
  | flushLeave hsplit hcall =>
      refine h.of_calls rfl rfl rfl ?_ ?_
      · intro hsome
        simp only [hsplit, someWait_append, someWait_cons, Bool.or_eq_true] at hsome ⊢
        rcases hsome with hfront | hback
        · exact .inl hfront
        · exact .inr (.inr hback)
      · intro hsome
        simp only [hsplit, someFlush_append, someFlush_cons, Bool.or_eq_true] at hsome ⊢
        rcases hsome with hfront | hback
        · exact .inl hfront
        · exact .inr (.inr hback)
  | interruptFlush hsignal =>
      refine h.of_calls rfl rfl rfl ?_ ?_
      · intro hsome
        apply someWait_of_flushSignal hsignal
        simpa [Call.onFlushCond] using hsome
      · rw [← someFlush_of_signal hsignal]
        simp [inFlush]
  | interruptHeap hsignal =>
      refine h.of_calls rfl rfl rfl ?_ ?_
      · rw [← someWait_of_heapSignal hsignal]
        simp [Call.onFlushCond]
      · rw [← someFlush_of_signal hsignal]
        simp [inFlush]
  | heapSignal _ _ hsignal =>
      rw [← someWait_of_heapSignal hsignal] at hwaiting
      rw [← someFlush_of_signal hsignal] at hflushing
      exact ⟨hwaiting, hflushing, by simp, by simp⟩
  | decrementSignal _ _ _ hsignal =>
      rw [← someWait_of_heapSignal hsignal] at hwaiting
      rw [← someFlush_of_signal hsignal] at hflushing
      exact ⟨hwaiting, hflushing, by simp, by simp⟩
  | broadcast hpoint =>
      have hset := hflushed (.inl hpoint)
      exact ⟨by simp [someWait_broadcast], fun _ => .inr hset, fun _ => hset,
        fun _ => someWait_broadcast _⟩
  | clearFlush hpoint =>
      -- all who waited have been woken, and `_flushed` is set
      have hset := hflushed (.inr hpoint)
      have hnone := hwoken hpoint
      exact ⟨by simp [hnone], fun _ => .inr hset, by simp, by simp⟩
  | ending =>
      exact ⟨by simp [someWait_broadcast], by simpa [someFlush_broadcast] using hflushing,
        by simp, by simp⟩
  | loopEmpty =>
      refine ⟨hwaiting, fun _ => .inr rfl, fun _ => rfl, ?_⟩
      cases sorter.doFlush <;> simp
  | _ =>
      exact ⟨by simp_all [Call.onFlushCond], by simp_all [inFlush],
        by simp_all [signalled_eq_broadcast, signalled_eq_clearFlush],
        by simp_all [signalled_eq_clearFlush, Call.onFlushCond]⟩

theorem FlushKept.flushHeard (h : FlushKept sorter) : FlushHeard sorter := by
  intro _ woken hmem
  cases woken with
  | false => exact .inl (h.waiting (List.any_eq_true.mpr ⟨_, hmem, rfl⟩))
  | true =>
      rcases h.flushing (List.any_eq_true.mpr ⟨_, hmem, rfl⟩) with hdoFlush | hflushed
      · exact .inl hdoFlush
      · exact .inr ⟨rfl, hflushed⟩

theorem flushKept_started (heapMax : ℕ) : FlushKept (started heapMax) :=
  ⟨fun hsome => (by cases hsome), fun _ => .inr rfl, fun _ => rfl, fun _ => rfl⟩

/-- **Nobody who waits in `flush` is forgotten in a run that inserts samples apart from flushes.** -/
theorem flushHeard_of_insertsApart {heapMax : ℕ}
    (h : Reaches (restrict insertsApart (step config)) (started heapMax) sorter) :
    FlushHeard sorter := by
  apply FlushKept.flushHeard
  apply h.invariant (flushKept_started heapMax)
  intro before action after hbefore hstep
  obtain ⟨hapart, hstep⟩ := restrict_eq_some.mp hstep
  exact hbefore.move (step_move hstep) hapart

/-- A sample is received and `flush` is called; the thread of `flush` waits and is woken. -/
def flushRun : List SorterAction :=
  [.receive (oneByte 0 1) 0, .call 0 0, .call 0 0, .flush, .call 0 0, .call 0 0,
    .run 0, .run 0, .run 0, .run 0, .run 0, .run 0]

theorem flushHeard_of_insertsApart_flushRun :
    ∃ sorter, runSteps (restrict insertsApart (step {})) (started 100) flushRun = some sorter ∧
      sorter.calls = [.flushWait true] ∧ sorter.doFlush = false ∧ sorter.interrupted = false ∧
      FlushHeard sorter := by
  have hrun : runSteps (restrict insertsApart (step {})) (started 100) flushRun = some
      { (started 100) with
        calls := [.flushWait true], point := .toWait, received := [oneByte 0 1],
        distributed := [oneByte 0 1] } := by
    decide +kernel
  exact ⟨_, hrun, rfl, rfl, rfl, flushHeard_of_insertsApart ⟨flushRun, hrun⟩⟩

/-- The set is drained before the thread of `flush` looks at `_flushed`, and another sample is
inserted. -/
def forgottenFlushRun : List SorterAction :=
  [.receive (oneByte 0 1) 0, .call 0 0, .call 0 0, .flush, .call 0 0,
    .run 0, .run 0, .run 0, .run 0, .run 0, .run 0, .run 0,
    .receive (oneByte 1 2) 0, .call 1 0, .call 1 0, .call 0 0]

/-- The thread of `flush` waits, and the loop does not know about it. -/
theorem not_flushHeard_forgottenFlushRun :
    ∃ sorter, Reaches (step {}) (started 100) sorter ∧ ¬ FlushHeard sorter := by
  have hrun : ((runSteps (step {}) (started 100) forgottenFlushRun).any fun sorter =>
      decide (sorter.interrupted = false ∧ .flushWait false ∈ sorter.calls ∧
        sorter.doFlush = false)) = true := by
    decide +kernel
  obtain ⟨sorter, hreaches, hcheck⟩ := exists_reaches_of_any hrun
  obtain ⟨hinterrupted, hmem, hdoFlush⟩ := of_decide_eq_true hcheck
  refine ⟨sorter, hreaches, fun hheard => ?_⟩
  rcases hheard hinterrupted false hmem with hset | ⟨hwoken, -⟩
  · rw [hdoFlush] at hset
    cases hset
  · cases hwoken

end Nidas.Core.SampleSorter
