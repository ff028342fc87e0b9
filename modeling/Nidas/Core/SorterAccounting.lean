import Nidas.Core.SorterSteps

/-!
# The sorter loses no sample and its heap counter is exact

`receive` adds the size of a sample under one lock and inserts the sample under another one, and
the loop takes samples out, distributes them and then subtracts their sizes.  `Accounted` says
where every sample is and what every byte of `_heapSize` stands for, at every program point of
every thread, and each step of the machine keeps it.
-/

namespace Nidas.Core

open Lib

/-- The size that a call has added to `_heapSize` for a sample that is not in the set. -/
def Call.held : Call → ℕ
  | heapWait s _ => s.length
  | insert s => s.length
  | _ => 0

/-- The loop of `run` has not ended. -/
def RunPoint.looping (point : RunPoint) : Prop := point ≠ .ending ∧ point ≠ .finished

namespace SampleSorter

/-- The sizes of the samples that have been admitted and not inserted. -/
def heldSize (calls : List Call) : ℕ := (calls.map Call.held).sum

/-- Where the samples are, and what `_heapSize` is made of.  Nothing is released before the
loop ends. -/
structure Accounted (sorter : SampleSorter) : Prop where
  samples_perm : sorter.received.Perm
    (sorter.distributed ++ (sorter.point.aged ++ (sorter.samples ++ sorter.released)))
  heapSize_eq : sorter.heapSize =
    totalLength sorter.samples + (totalLength sorter.point.aged + sorter.point.distributedSize) +
      heldSize sorter.calls + totalLength sorter.released
  released_nil : sorter.point.looping → sorter.released = []

variable {config : SorterConfig} {sorter next : SampleSorter} {action : SorterAction}

/-! ## Sums -/

@[simp] theorem totalLength_nil : totalLength [] = 0 := rfl

@[simp] theorem totalLength_cons (s : SamplePtr) (list : List SamplePtr) :
    totalLength (s :: list) = s.length + totalLength list := List.sum_cons

@[simp] theorem totalLength_append (front back : List SamplePtr) :
    totalLength (front ++ back) = totalLength front + totalLength back := by
  simp [totalLength]

theorem totalLength_of_perm {first second : List SamplePtr} (h : first.Perm second) :
    totalLength first = totalLength second := (h.map _).sum_eq

@[simp] theorem heldSize_append (front back : List Call) :
    heldSize (front ++ back) = heldSize front + heldSize back := by
  simp [heldSize]

@[simp] theorem heldSize_cons (call : Call) (calls : List Call) :
    heldSize (call :: calls) = call.held + heldSize calls := List.sum_cons

@[simp] theorem heldSize_nil : heldSize [] = 0 := rfl

@[simp] theorem held_wake (call : Call) : call.wake.held = call.held := by
  cases call <;> rfl

/-- Waking a thread changes no size. -/
theorem heldSize_of_signal {waits : Call → Bool} {choice : ℕ} {calls after : List Call}
    (h : signal waits Call.wake choice calls = some after) : heldSize after = heldSize calls :=
  congrArg List.sum (map_of_signal (fun call _ => held_wake call) h)

@[simp] theorem heldSize_broadcast {waits : Call → Bool} (calls : List Call) :
    heldSize (Lib.broadcast waits Call.wake calls) = heldSize calls :=
  congrArg List.sum (map_broadcast (fun call _ => held_wake call) calls)

theorem not_distributing {point : RunPoint} (h : ∀ aged ssum, point ≠ .distributing aged ssum) :
    point.aged = [] ∧ point.distributedSize = 0 := by
  cases point with
  | distributing aged ssum => exact absurd rfl (h aged ssum)
  | _ => exact ⟨rfl, rfl⟩

@[simp] theorem aged_of_ne {point : RunPoint} (h : ∀ aged ssum, point ≠ .distributing aged ssum) :
    point.aged = [] := (not_distributing h).1

@[simp] theorem distributedSize_of_ne {point : RunPoint}
    (h : ∀ aged ssum, point ≠ .distributing aged ssum) : point.distributedSize = 0 :=
  (not_distributing h).2

@[simp] theorem aged_distributing (aged : List SamplePtr) (ssum : ℕ) :
    (RunPoint.distributing aged ssum).aged = aged := rfl

@[simp] theorem distributedSize_distributing (aged : List SamplePtr) (ssum : ℕ) :
    (RunPoint.distributing aged ssum).distributedSize = ssum := rfl

@[simp] theorem aged_signalled (point : RunPoint) : point.signalled.aged = point.aged := by
  cases point <;> rfl

@[simp] theorem distributedSize_signalled (point : RunPoint) :
    point.signalled.distributedSize = point.distributedSize := by
  cases point <;> rfl

/-! ## A step keeps the account -/

/-- The loop at a point where it has no aged samples. -/
theorem afterEmpty_aged (doFlush : Bool) :
    (if doFlush then RunPoint.broadcast else .toWait).aged = [] ∧
      (if doFlush then RunPoint.broadcast else .toWait).distributedSize = 0 := by
  cases doFlush <;> exact ⟨rfl, rfl⟩

theorem Accounted.perm_move (h : Accounted sorter) (hmove : Move config sorter action next) :
    next.received.Perm
      (next.distributed ++ (next.point.aged ++ (next.samples ++ next.released))) := by
  have hsamples := h.samples_perm
  cases hmove with
  | @insert _ _ _ _ s =>
      -- the new sample comes to the end of those received and to its place in the set
      have hnew : (insertUpper SamplePtr.getTimeTag s sorter.samples).Perm (sorter.samples ++ [s]) :=
        (insertUpper_perm s sorter.samples).trans (List.perm_append_singleton s _).symm
      simp only [aged_signalled]
      calc sorter.received ++ [s]
        _ |>.Perm (sorter.distributed ++ (sorter.point.aged ++ (sorter.samples ++ sorter.released)) ++
              [s]) := hsamples.append_right [s]
        _ |>.Perm _ := by
          rw [List.append_assoc, List.append_assoc, List.append_assoc]
          refine .append_left _ (.append_left _ ?_)
          refine (List.Perm.append_left _ List.perm_append_comm).trans ?_
          rw [← List.append_assoc]
          exact hnew.symm.append_right _
  | loopEnd hpoint =>
      rw [hpoint] at hsamples
      simp only [aged_of_ne, ne_eq, reduceCtorEq, not_false_eq_true, implies_true,
        List.nil_append] at hsamples ⊢
      exact hsamples.trans (.append_left _ List.perm_append_comm)
  | loopEmpty hpoint hempty =>
      rw [hpoint] at hsamples
      simp only [(afterEmpty_aged sorter.doFlush).1]
      exact hsamples
  | loopFlush hpoint =>
      rw [hpoint] at hsamples
      exact hsamples
  | loopAged hpoint =>
      rw [hpoint] at hsamples
      simp only [aged_distributing]
      rw [← List.append_assoc (below _ _ _), below_append_notBelow]
      exact hsamples
  | distribute hpoint =>
      rw [hpoint] at hsamples
      simp only [aged_distributing, List.append_assoc]
      exact hsamples
  | destroy =>
      simp only [List.nil_append]
      exact hsamples.trans (.append_left _ (.append_left _ List.perm_append_comm))
  | _ => simp_all

theorem heldSize_flushing {call : Call} (hcall : call = .flushTest ∨ call = .flushWait true) :
    call.held = 0 := by
  rcases hcall with rfl | rfl <;> rfl

/-- The subtraction does not wrap: the size was added before. -/
theorem Accounted.ssum_le (h : Accounted sorter) {aged : List SamplePtr} {ssum : ℕ}
    (hpoint : sorter.point = .distributing aged ssum) : ssum ≤ sorter.heapSize := by
  have hheap := h.heapSize_eq
  rw [hpoint, distributedSize_distributing] at hheap
  omega

theorem Accounted.heap_move (h : Accounted sorter) (hmove : Move config sorter action next) :
    next.heapSize =
      totalLength next.samples + (totalLength next.point.aged + next.point.distributedSize) +
        heldSize next.calls + totalLength next.released := by
  have hheap := h.heapSize_eq
  cases hmove with
  | pass _ hcalls =>
      rw [hcalls] at hheap
      simp only [heldSize_append, heldSize_cons, Call.held] at hheap ⊢
      omega
  | block _ hcalls =>
      rw [hcalls] at hheap
      simp only [heldSize_append, heldSize_cons, Call.held, aged_signalled,
        distributedSize_signalled] at hheap ⊢
      omega
  | @insert _ _ _ _ s _ hcalls =>
      have hnew : totalLength (insertUpper SamplePtr.getTimeTag s sorter.samples) =
          totalLength (s :: sorter.samples) := totalLength_of_perm (insertUpper_perm s _)
      rw [hcalls] at hheap
      simp only [heldSize_append, heldSize_cons, Call.held, aged_signalled,
        distributedSize_signalled, totalLength_cons, hnew] at hheap ⊢
      omega
  | flushLeave hcalls hcall =>
      rw [hcalls] at hheap
      simpa [heldSize_flushing hcall] using hheap
  | flushWait hcalls hcall =>
      rw [hcalls, heldSize_append, heldSize_cons, heldSize_flushing hcall] at hheap
      simpa [Call.held] using hheap
  | interruptFlush hsignal =>
      rw [← heldSize_of_signal hsignal] at hheap
      simpa [Call.held] using hheap
  | interruptHeap hsignal =>
      rw [← heldSize_of_signal hsignal] at hheap
      simpa [Call.held] using hheap
  | loopEnd hpoint =>
      rw [hpoint] at hheap
      simp only [totalLength_append]
      simp at hheap ⊢
      omega
  | loopEmpty hpoint hempty =>
      rw [hpoint] at hheap
      simp only [(afterEmpty_aged sorter.doFlush).1, (afterEmpty_aged sorter.doFlush).2]
      exact hheap
  | loopFlush hpoint =>
      rw [hpoint] at hheap
      simp at hheap ⊢
      omega
  | @loopAged _ late hpoint =>
      have hsplit := @below_append_notBelow _ _ _ SamplePtr.getTimeTag
        (late.timeTag - config.sorterLengthUsec) sorter.samples
      have htotal := congrArg totalLength hsplit
      rw [totalLength_append] at htotal
      rw [hpoint] at hheap
      simp at hheap ⊢
      omega
  | heapSignal hpoint _ hsignal =>
      rw [hpoint, ← heldSize_of_signal hsignal] at hheap
      simpa using hheap
  | distribute hpoint =>
      rw [hpoint] at hheap
      simp at hheap ⊢
      omega
  | decrementSignal hpoint _ _ hsignal =>
      have hle := h.ssum_le hpoint
      rw [hpoint, ← heldSize_of_signal hsignal] at hheap
      simp [sizeSub, hle] at hheap ⊢
      omega
  | decrement hpoint =>
      have hle := h.ssum_le hpoint
      rw [hpoint] at hheap
      simp [sizeSub, hle] at hheap ⊢
      omega
  | destroy =>
      simp
      omega
  | _ => simp_all [Call.held]

theorem looping_signalled {point : RunPoint} :
    point.signalled.looping ↔ point.looping := by
  cases point <;> simp [RunPoint.signalled, RunPoint.looping]

theorem Accounted.released_move (h : Accounted sorter) (hmove : Move config sorter action next)
    (hnext : next.point.looping) : next.released = [] := by
  have hreleased := h.released_nil
  cases hmove with
  | block | blockAgain | insert | flushBegin | interruptSet =>
      exact hreleased (looping_signalled.mp hnext)
  | loopEnd => exact absurd rfl hnext.1
  | ending => exact absurd rfl hnext.2
  | destroy hpoint => exact absurd hpoint hnext.2
  | _ => simp_all [RunPoint.looping]

theorem Accounted.move (h : Accounted sorter) (hmove : Move config sorter action next) :
    Accounted next :=
  ⟨h.perm_move hmove, h.heap_move hmove, h.released_move hmove⟩

theorem accounted_started (heapMax : ℕ) : Accounted (started heapMax) :=
  ⟨.refl _, rfl, fun _ => rfl⟩

/-- The account holds in every run. -/
theorem accounted_of_reaches {heapMax : ℕ} (h : Reaches (step config) (started heapMax) sorter) :
    Accounted sorter :=
  h.invariant (accounted_started heapMax)
    fun _ _ _ hbefore hstep => hbefore.move (step_move hstep)

/-- **The sorter loses and duplicates nothing, and its heap counter is exact.**  In every state that
the threads can reach, the samples for which `receive` has returned true are those that have been
distributed, those that the loop is about to distribute, those in the set and those that have been
released, each as often as it was received.  While the loop runs, `_heapSize` is the size of
the samples in the set, of those taken out and not accounted for, and of those admitted and not
inserted, so what `heapDecrement` will subtract is never more than it. -/
theorem samples_accounted {heapMax : ℕ} (h : Reaches (step config) (started heapMax) sorter) :
    sorter.received.Perm
        (sorter.distributed ++ (sorter.point.aged ++ (sorter.samples ++ sorter.released))) ∧
      (∀ s, s ∉ sorter.received →
        s ∉ sorter.distributed ∧ s ∉ sorter.point.aged ∧ s ∉ sorter.samples ∧
          s ∉ sorter.released) ∧
      (sorter.point.looping →
        sorter.heapSize = totalLength sorter.samples +
          (totalLength sorter.point.aged + sorter.point.distributedSize) +
          heldSize sorter.calls) ∧
      ∀ aged ssum, sorter.point = .distributing aged ssum →
        ssum + totalLength aged ≤ sorter.heapSize := by
  have haccounted := accounted_of_reaches h
  refine ⟨haccounted.samples_perm, ?_, ?_, ?_⟩
  · intro s hs
    rw [haccounted.samples_perm.mem_iff] at hs
    simpa only [List.mem_append, not_or] using hs
  · intro hlooping
    have hheap := haccounted.heapSize_eq
    rw [haccounted.released_nil hlooping] at hheap
    exact hheap
  · intro aged ssum hpoint
    have hheap := haccounted.heapSize_eq
    rw [hpoint, aged_distributing, distributedSize_distributing] at hheap
    omega

/-- Two samples are received and the first one is distributed; a third one is discarded, as the
heap may hold only 34 bytes. -/
def discardRun : List SorterAction :=
  [.receive (oneByte 0 1) 0, .call 0 0, .call 0 0, .receive (oneByte 300000 2) 0, .call 0 0, .call 0 0,
    .run 0, .receive (oneByte 400000 3) 0, .call 0 0, .run 0]

theorem samples_accounted_discardRun :
    ∃ sorter, runSteps (step {}) (started 34) discardRun = some sorter ∧
      sorter.refused = [oneByte 400000 3] ∧ sorter.point.looping ∧
      sorter.received.Perm
        (sorter.distributed ++ (sorter.point.aged ++ (sorter.samples ++ sorter.released))) ∧
      sorter.heapSize = totalLength sorter.samples +
        (totalLength sorter.point.aged + sorter.point.distributedSize) +
        heldSize sorter.calls := by
  have hrun : runSteps (step {}) (started 34) discardRun = some
      { (started 34) with
        samples := [oneByte 300000 2], heapSize := 34, heapExceeded := true, flushed := false,
        point := .distributing [] 17, received := [oneByte 0 1, oneByte 300000 2],
        refused := [oneByte 400000 3], distributed := [oneByte 0 1] } := by
    decide +kernel
  obtain ⟨hperm, -, hheap, -⟩ := samples_accounted ⟨discardRun, hrun⟩
  have hlooping : (RunPoint.distributing [] 17).looping := ⟨by decide, by decide⟩
  exact ⟨_, hrun, rfl, hlooping, hperm, hheap hlooping⟩

end SampleSorter

end Nidas.Core
