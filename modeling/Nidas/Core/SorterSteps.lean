import Nidas.Core.SampleSorter

/-!
# What a step of the sorter can do

`Move` lists the steps of the machine, with the conditions under which each is taken and the call
in progress that takes it between the calls before and behind it in the list.  Without a call of
`flush` the sorter never comes to flush.
-/

namespace Nidas.Core.SampleSorter

open Lib

variable {config : SorterConfig} {sorter next : SampleSorter} {action : SorterAction}

/-- The steps of the machine. -/
inductive Move (config : SorterConfig) (sorter : SampleSorter) :
    SorterAction → SampleSorter → Prop where
  | future (s : SamplePtr) (systt : ℤ) :
      Move config sorter (.receive s systt) { sorter with refused := sorter.refused ++ [s] }
  | receive (s : SamplePtr) (systt : ℤ) :
      Move config sorter (.receive s systt) { sorter with calls := sorter.calls ++ [.receive s] }
  | flush : Move config sorter .flush { sorter with calls := sorter.calls ++ [.flush] }
  | interrupt : Move config sorter .interrupt { sorter with calls := sorter.calls ++ [.interrupt] }
  -- receive
  | discard {place choice : ℕ} {before after : List Call} {s : SamplePtr}
      (hplace : sorter.calls[place]? = some (.receive s))
      (hcalls : sorter.calls = before ++ .receive s :: after) (hblock : config.heapBlock = false)
      (hmax : sorter.heapMax < sorter.heapSize + s.length) :
      Move config sorter (.call place choice)
        { sorter with
          heapExceeded := true
          calls := before ++ after
          refused := sorter.refused ++ [s] }
  | pass {place choice : ℕ} {before after : List Call} {s : SamplePtr}
      (hplace : sorter.calls[place]? = some (.receive s))
      (hcalls : sorter.calls = before ++ .receive s :: after)
      (hmax : sorter.heapSize + s.length ≤ sorter.heapMax) :
      Move config sorter (.call place choice)
        { sorter with
          heapSize := sorter.heapSize + s.length
          heapExceeded := false
          calls := before ++ .insert s :: after }
  | block {place choice : ℕ} {before after : List Call} {s : SamplePtr}
      (hplace : sorter.calls[place]? = some (.receive s))
      (hcalls : sorter.calls = before ++ .receive s :: after) (hblock : config.heapBlock = true)
      (hmax : sorter.heapMax < sorter.heapSize + s.length) :
      Move config sorter (.call place choice)
        { sorter with
          heapSize := sorter.heapSize + s.length
          heapExceeded := true
          point := sorter.point.signalled
          calls := before ++ .heapWait s false :: after }
  | blockAgain {place choice : ℕ} {before after : List Call} {s : SamplePtr}
      (hplace : sorter.calls[place]? = some (.heapWait s true))
      (hcalls : sorter.calls = before ++ .heapWait s true :: after)
      (hmax : sorter.heapMax < sorter.heapSize) :
      Move config sorter (.call place choice)
        { sorter with
          heapExceeded := true
          point := sorter.point.signalled
          calls := before ++ .heapWait s false :: after }
  | resume {place choice : ℕ} {before after : List Call} {s : SamplePtr}
      (hplace : sorter.calls[place]? = some (.heapWait s true))
      (hcalls : sorter.calls = before ++ .heapWait s true :: after)
      (hmax : sorter.heapSize ≤ sorter.heapMax) :
      Move config sorter (.call place choice)
        { sorter with heapExceeded := false, calls := before ++ .insert s :: after }
  | insert {place choice : ℕ} {before after : List Call} {s : SamplePtr}
      (hplace : sorter.calls[place]? = some (.insert s))
      (hcalls : sorter.calls = before ++ .insert s :: after) (hlocked : sorter.point.locked = false) :
      Move config sorter (.call place choice)
        { sorter with
          samples := insertUpper SamplePtr.getTimeTag s sorter.samples
          flushed := false
          point := sorter.point.signalled
          calls := before ++ after
          received := sorter.received ++ [s] }
  -- flush
  | flushDone {place choice : ℕ} {before after : List Call}
      (hcalls : sorter.calls = before ++ .flush :: after) (hflushed : sorter.flushed = true) :
      Move config sorter (.call place choice) { sorter with calls := before ++ after }
  | flushBegin {place choice : ℕ} {before after : List Call}
      (hcalls : sorter.calls = before ++ .flush :: after) (hlocked : sorter.point.locked = false) :
      Move config sorter (.call place choice)
        { sorter with
          doFlush := true
          point := sorter.point.signalled
          calls := before ++ .flushTest :: after }
  | flushLeave {place choice : ℕ} {before after : List Call} {call : Call}
      (hcalls : sorter.calls = before ++ call :: after)
      (hcall : call = .flushTest ∨ call = .flushWait true) :
      Move config sorter (.call place choice) { sorter with calls := before ++ after }
  | flushWait {place choice : ℕ} {before after : List Call} {call : Call}
      (hcalls : sorter.calls = before ++ call :: after)
      (hcall : call = .flushTest ∨ call = .flushWait true) (hflushed : sorter.flushed = false) :
      Move config sorter (.call place choice)
        { sorter with calls := before ++ .flushWait false :: after }
  -- interrupt
  | interruptSet {place choice : ℕ} {before after : List Call}
      (hcalls : sorter.calls = before ++ .interrupt :: after)
      (hlocked : sorter.point.locked = false) :
      Move config sorter (.call place choice)
        { sorter with
          interrupted := true
          point := sorter.point.signalled
          calls := before ++ .interruptFlush :: after }
  | interruptFlush {place choice : ℕ} {before after : List Call}
      (hsignal : signal Call.onFlushCond Call.wake choice sorter.calls =
        some (before ++ .interruptFlush :: after)) :
      Move config sorter (.call place choice)
        { sorter with calls := before ++ .interruptHeap :: after }
  | interruptHeap {place choice heapMax : ℕ} {before after : List Call}
      (hsignal : signal Call.onHeapCond Call.wake choice sorter.calls =
        some (before ++ .interruptHeap :: after)) :
      Move config sorter (.call place choice)
        { sorter with heapMax := heapMax, calls := before ++ after }
  -- the loop, in front of its test
  | loopEnd {choice : ℕ} (hpoint : sorter.point = .loop) (hinterrupted : sorter.interrupted = true) :
      Move config sorter (.run choice)
        { sorter with
          samples := []
          flushed := true
          point := .ending
          released := sorter.released ++ sorter.samples }
  | loopEmpty {choice : ℕ} (hpoint : sorter.point = .loop) (hempty : sorter.samples = []) :
      Move config sorter (.run choice)
        { sorter with
          flushed := true
          point := if sorter.doFlush then .broadcast else .toWait }
  | loopFew {choice : ℕ} (hpoint : sorter.point = .loop)
      (hfew : sorter.samples.length ≤ config.lateSampleCacheSize)
      (hflush : sorter.doFlush = false) :
      Move config sorter (.run choice) { sorter with point := .toWait }
  | loopFlush {choice : ℕ} (hpoint : sorter.point = .loop) (hflush : sorter.doFlush = true) :
      Move config sorter (.run choice)
        { sorter with samples := [], point := .distributing sorter.samples 0 }
  | loopNoAged {choice : ℕ} (hpoint : sorter.point = .loop) :
      Move config sorter (.run choice) { sorter with point := .heapCheck }
  | loopAged {choice : ℕ} {late : SamplePtr} (hpoint : sorter.point = .loop)
      (hflush : sorter.doFlush = false)
      (hlate : fromEnd config.lateSampleCacheSize sorter.samples = some late) :
      Move config sorter (.run choice)
        { sorter with
          samples := notBelow SamplePtr.getTimeTag (late.timeTag - config.sorterLengthUsec) sorter.samples
          point := .distributing
            (below SamplePtr.getTimeTag (late.timeTag - config.sorterLengthUsec) sorter.samples) 0 }
  -- the loop, at its other points
  | broadcast {choice : ℕ} (hpoint : sorter.point = .broadcast) :
      Move config sorter (.run choice)
        { sorter with
          point := .clearFlush
          calls := Lib.broadcast Call.onFlushCond Call.wake sorter.calls }
  | clearFlush {choice : ℕ} (hpoint : sorter.point = .clearFlush) :
      Move config sorter (.run choice) { sorter with doFlush := false, point := .toWait }
  | heapSignal {choice : ℕ} {calls : List Call} (hpoint : sorter.point = .heapCheck)
      (hexceeded : sorter.heapExceeded = true)
      (hsignal : signal Call.onHeapCond Call.wake choice sorter.calls = some calls) :
      Move config sorter (.run choice)
        { sorter with
          heapMax := sorter.heapMax + sorter.heapMax / 2
          heapExceeded := false
          point := .toWait
          calls := calls }
  | heapCheck {choice : ℕ} (hpoint : sorter.point = .heapCheck)
      (hexceeded : sorter.heapExceeded = false) :
      Move config sorter (.run choice) { sorter with point := .toWait }
  | wait {choice : ℕ} (hpoint : sorter.point = .toWait) :
      Move config sorter (.run choice) { sorter with point := .waiting }
  | distribute {choice ssum : ℕ} {s : SamplePtr} {rest : List SamplePtr}
      (hpoint : sorter.point = .distributing (s :: rest) ssum) :
      Move config sorter (.run choice)
        { sorter with
          point := .distributing rest (ssum + s.length)
          distributed := sorter.distributed ++ [s] }
  | decrementSignal {choice ssum : ℕ} {calls : List Call}
      (hpoint : sorter.point = .distributing [] ssum) (hexceeded : sorter.heapExceeded = true)
      (hhalf : sizeSub sorter.heapSize ssum < sorter.heapMax / 2)
      (hsignal : signal Call.onHeapCond Call.wake choice sorter.calls = some calls) :
      Move config sorter (.run choice)
        { sorter with
          heapSize := sizeSub sorter.heapSize ssum
          heapExceeded := false
          point := .loop
          calls := calls }
  | decrement {choice ssum : ℕ} (hpoint : sorter.point = .distributing [] ssum) :
      Move config sorter (.run choice)
        { sorter with heapSize := sizeSub sorter.heapSize ssum, point := .loop }
  | ending {choice : ℕ} (hpoint : sorter.point = .ending) :
      Move config sorter (.run choice)
        { sorter with
          point := .finished
          calls := Lib.broadcast Call.onFlushCond Call.wake sorter.calls }
  | destroy (hpoint : sorter.point = .finished) :
      Move config sorter .destroy
        { sorter with samples := [], released := sorter.released ++ sorter.samples }

/-! ## Calls -/

/-- The loop of `flush`. -/
theorem flushTest_move {place choice : ℕ} {call : Call} {before after : List Call}
    (hcall : call = .flushTest ∨ call = .flushWait true)
    (hcalls : sorter.calls = before ++ call :: after)
    (hset : ∀ next, proceed sorter.calls place (some next) = before ++ next :: after)
    (herase : proceed sorter.calls place none = before ++ after) :
    Move config sorter (.call place choice) (sorter.flushTest place) := by
  unfold SampleSorter.flushTest
  rw [herase, hset]
  split
  · next htest =>
      refine .flushWait hcalls hcall ?_
      simp only [Bool.and_eq_true, Bool.not_eq_true'] at htest
      exact htest.1
  · exact .flushLeave hcalls hcall

theorem callStep_move {place choice : ℕ} {call : Call} (hplace : sorter.calls[place]? = some call)
    (h : callStep config sorter place choice call = some next) :
    Move config sorter (.call place choice) next := by
  obtain ⟨before, after, hcalls, hset, herase⟩ := exists_split_at hplace
  cases call with
  | receive s =>
      cases h
      unfold heapAdd heapTest
      dsimp only
      rw [herase, hset, hset]
      split
      · next hblock =>
          split
          · next hmax => exact .block hplace hcalls hblock hmax
          · next hmax => exact .pass hplace hcalls (not_lt.mp hmax)
      · next hblock =>
          split
          · next hmax => exact .discard hplace hcalls (Bool.eq_false_iff.mpr hblock) hmax
          · next hmax => exact .pass hplace hcalls (not_lt.mp hmax)
  | heapWait s woken =>
      cases woken with
      | false => cases h
      | true =>
          cases h
          unfold heapTest
          rw [hset, hset]
          split
          · next hmax => exact .blockAgain hplace hcalls hmax
          · next hmax => exact .resume hplace hcalls (not_lt.mp hmax)
  | insert s =>
      rw [callStep] at h
      split at h
      · cases h
      · next hlocked =>
          cases h
          unfold SampleSorter.insert
          rw [herase]
          exact .insert hplace hcalls (Bool.eq_false_iff.mpr hlocked)
  | flush =>
      rw [callStep] at h
      split at h
      · cases h
      · next hlocked =>
          cases h
          unfold SampleSorter.flushBegin
          rw [herase, hset]
          split
          · next hflushed => exact .flushDone hcalls hflushed
          · exact .flushBegin hcalls (Bool.eq_false_iff.mpr hlocked)
  | flushTest =>
      cases h
      exact flushTest_move (.inl rfl) hcalls hset herase
  | flushWait woken =>
      cases woken with
      | false => cases h
      | true =>
          cases h
          exact flushTest_move (.inr rfl) hcalls hset herase
  | interrupt =>
      rw [callStep] at h
      split at h
      · cases h
      · next hlocked =>
          cases h
          rw [hset]
          exact .interruptSet hcalls (Bool.eq_false_iff.mpr hlocked)
  | interruptFlush =>
      rw [callStep] at h
      split at h
      · next calls hsignal =>
          cases h
          obtain ⟨before, after, hcalls, hset, -⟩ :=
            exists_split_at (getElem?_of_signal hsignal hplace rfl)
          rw [hset]
          rw [hcalls] at hsignal
          exact .interruptFlush hsignal
      · cases h
  | interruptHeap =>
      rw [callStep, SampleSorter.interruptHeap] at h
      split at h
      · next calls hsignal =>
          cases h
          obtain ⟨before, after, hcalls, -, herase⟩ :=
            exists_split_at (getElem?_of_signal hsignal hplace rfl)
          rw [herase]
          rw [hcalls] at hsignal
          exact .interruptHeap hsignal
      · cases h

/-! ## The loop -/

theorem takeAged_move {choice : ℕ} (hpoint : sorter.point = .loop) :
    Move config sorter (.run choice) (sorter.takeAged config) := by
  have hnone : Move config sorter (.run choice) { sorter with point := .heapCheck } :=
    .loopNoAged hpoint
  unfold takeAged agedSamples
  by_cases hflush : sorter.doFlush = true
  · have hall : Move config sorter (.run choice)
        { sorter with samples := [], point := .distributing sorter.samples 0 } :=
      .loopFlush hpoint hflush
    rw [if_pos hflush]
    split
    · exact hnone
    · next heq =>
        obtain ⟨hsamples, hleft⟩ := Prod.mk.inj heq
        rw [← hsamples, ← hleft]
        exact hall
  · rw [if_neg hflush]
    cases hlate : fromEnd config.lateSampleCacheSize sorter.samples with
    | none => exact hnone
    | some late =>
        dsimp only
        split
        · exact hnone
        · next heq =>
            obtain ⟨hbelow, hleft⟩ := Prod.mk.inj heq
            rw [← hbelow, ← hleft]
            exact .loopAged hpoint (Bool.eq_false_iff.mpr hflush) hlate

theorem loopTop_move {choice : ℕ} (hpoint : sorter.point = .loop) :
    Move config sorter (.run choice) (sorter.loopTop config) := by
  unfold loopTop
  split
  · next hinterrupted => exact .loopEnd hpoint hinterrupted
  · split
    · next hempty => exact .loopEmpty hpoint (List.length_eq_zero_iff.mp hempty)
    · split
      · next hfew => exact .loopFew hpoint hfew.1 hfew.2
      · exact takeAged_move hpoint

theorem runStep_move {choice : ℕ} (h : runStep config sorter choice = some next) :
    Move config sorter (.run choice) next := by
  unfold runStep at h
  split at h
  · next hpoint =>
      cases h
      exact loopTop_move hpoint
  · next hpoint =>
      cases h
      exact .broadcast hpoint
  · next hpoint =>
      cases h
      exact .clearFlush hpoint
  · next hpoint =>
      unfold SampleSorter.heapCheck at h
      split at h
      · next hexceeded =>
          split at h
          · next calls hsignal =>
              cases h
              exact .heapSignal hpoint hexceeded hsignal
          · cases h
      · next hexceeded =>
          cases h
          exact .heapCheck hpoint (Bool.eq_false_iff.mpr hexceeded)
  · next hpoint =>
      cases h
      exact .wait hpoint
  · cases h
  · next hpoint =>
      cases h
      exact .distribute hpoint
  · next hpoint =>
      unfold heapDecrement at h
      dsimp only at h
      split at h
      · next htest =>
          simp only [Bool.and_eq_true, decide_eq_true_eq] at htest
          split at h
          · next calls hsignal =>
              cases h
              exact .decrementSignal hpoint htest.1.2 htest.2 hsignal
          · cases h
      · cases h
        exact .decrement hpoint
  · next hpoint =>
      cases h
      exact .ending hpoint
  · cases h

/-- **Every step of the machine is one of the list.** -/
theorem step_move (h : step config sorter action = some next) : Move config sorter action next := by
  cases action with
  | receive s systt =>
      rw [step] at h
      split at h
      · cases h
        exact .future s systt
      · cases h
        exact .receive s systt
  | flush =>
      cases h
      exact .flush
  | interrupt =>
      cases h
      exact .interrupt
  | call place choice =>
      rw [step] at h
      split at h
      · next call hplace => exact callStep_move hplace h
      · cases h
  | run choice => exact runStep_move h
  | destroy =>
      rw [step] at h
      split at h
      · next hend =>
          cases h
          exact .destroy hend.1
      · cases h

/-! ## Runs without a flush -/

/-- A step that is not a call of `flush`. -/
def noFlush (_ : SampleSorter) (action : SorterAction) : Bool := decide (action ≠ .flush)

/-- A call that is not about to set `_doFlush`. -/
def notFlush (call : Call) : Bool := decide (call ≠ .flush)

/-- Nobody has called `flush`. -/
structure Unflushed (sorter : SampleSorter) : Prop where
  doFlush : sorter.doFlush = false
  calls : sorter.calls.all notFlush = true

theorem notFlush_wake (call : Call) : notFlush call.wake = notFlush call := by
  cases call <;> rfl

theorem Unflushed.move (h : Unflushed sorter) (hmove : Move config sorter action next)
    (hallowed : noFlush sorter action = true) : Unflushed next := by
  obtain ⟨hdoFlush, hcalls⟩ := h
  have hsignalled {waits : Call → Bool} {choice : ℕ} {after : List Call}
      (hsignal : signal waits Call.wake choice sorter.calls = some after) :
      after.all notFlush = true := by
    rw [all_of_map_eq (map_of_signal (fun call _ => notFlush_wake call) hsignal), hcalls]
  have hbroadcast (waits : Call → Bool) :
      (Lib.broadcast waits Call.wake sorter.calls).all notFlush = true := by
    rw [all_of_map_eq (map_broadcast (fun call _ => notFlush_wake call) sorter.calls), hcalls]
  cases hmove with
  | flush => exact absurd rfl (of_decide_eq_true hallowed)
  | flushBegin hsplit => simp [hsplit, notFlush] at hcalls
  | interruptFlush hsignal => exact ⟨hdoFlush, by simpa [notFlush] using hsignalled hsignal⟩
  | interruptHeap hsignal => exact ⟨hdoFlush, by simpa [notFlush] using hsignalled hsignal⟩
  | heapSignal _ _ hsignal => exact ⟨hdoFlush, hsignalled hsignal⟩
  | decrementSignal _ _ _ hsignal => exact ⟨hdoFlush, hsignalled hsignal⟩
  | broadcast => exact ⟨hdoFlush, hbroadcast _⟩
  | ending => exact ⟨hdoFlush, hbroadcast _⟩
  | _ => exact ⟨by simp_all, by simp_all [notFlush]⟩

end Nidas.Core.SampleSorter
